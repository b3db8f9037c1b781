import PatternMarkup.Proofs.Formula.GrammarReading
/-!
The rules of reading. What a reader returns is put together from what the readers below it return
and leave; a reader stops at the first token that none of its rules takes.
-/

namespace PatternMarkup

namespace FormulaParser

variable {α : Type} [Number α] {stop k : Nat} {tokens between rest : List PlacedToken}
  {ast left right object : Ast α}

/-- From the tokens, a reader returns a formula and leaves the rest. -/
def Leaves {bound : List PlacedToken → Nat}
    (read : (tokens : List PlacedToken) → Except FormatError (Parsed α (bound tokens)))
    (tokens : List PlacedToken) (ast : Ast α) (rest : List PlacedToken) : Prop :=
  ∃ p, read tokens = .ok p ∧ p.ast = ast ∧ p.rest = rest

/-- From the tokens, a reader returns formulas up to the end of a closing sign and leaves the
rest. -/
def LeavesItems {bound : List PlacedToken → Nat}
    (read : (tokens : List PlacedToken) → Except FormatError (ParsedItems α (bound tokens)))
    (tokens : List PlacedToken) (asts : List (Ast α)) (last : Nat) (rest : List PlacedToken) :
    Prop :=
  ∃ p, read tokens = .ok p ∧ p.items = asts ∧ p.stop = last ∧ p.rest = rest

/-- No token of these kinds is the next one. -/
def NotNext (refused : PlacedToken → Prop) (rest : List PlacedToken) : Prop :=
  ∀ t ∈ rest.head?, ¬ refused t

theorem notNext_nil (refused : PlacedToken → Prop) : NotNext refused [] := by
  intro t ht
  cases ht

theorem notNext_of_ne {token : FormulaToken} (h : ∀ range later, rest ≠ ⟨token, range⟩ :: later) :
    NotNext (·.token = token) rest := by
  rintro ⟨found, range⟩ ht rfl
  obtain ⟨later, rfl⟩ := List.head?_eq_some_iff.mp ht
  exact h range later rfl

theorem NotNext.of_cut {refused : PlacedToken → Prop} {cut : List PlacedToken}
    (h : NotNext refused rest) (hcut : cut <+: rest) : NotNext refused cut := by
  intro t ht
  obtain ⟨later, rfl⟩ := List.head?_eq_some_iff.mp ht
  obtain ⟨after, rfl⟩ := hcut
  exact h t rfl

theorem expectSign_cons (sign : Sign) (range : ByteRange) (rest : List PlacedToken) :
    expectSign α stop sign (⟨.sign sign, range⟩ :: rest) =
      .ok ⟨range.stop, rest, Nat.lt_succ_self _⟩ :=
  if_pos rfl

theorem eq_cons_of_expectSign {sign : Sign} {closed : Closed tokens.length}
    (h : expectSign α stop sign tokens = .ok closed) :
    ∃ range, tokens = ⟨.sign sign, range⟩ :: closed.rest ∧ closed.stop = range.stop := by
  cases tokens with
  | nil => cases h
  | cons t rest =>
      obtain ⟨token, range⟩ := t
      rw [expectSign] at h
      split at h
      case isTrue ht =>
        obtain rfl : token = .sign sign := ht
        cases h
        exact ⟨range, rfl, rfl⟩
      case isFalse => cases h

/-! ### Formulas and operators -/

theorem leaves_plain (h : Leaves (operation stop BinaryOp.loosest) tokens ast rest)
    (hrest : NotNext (·.token = .sign .question) rest) :
    Leaves (expression stop) tokens ast rest := by
  obtain ⟨⟨ast, rest, hshort⟩, hread, rfl, rfl⟩ := h
  rw [Leaves, expression, hread]
  simp only [bind, Except.bind]
  split
  case h_1 => exact absurd rfl (hrest _ rfl)
  case h_2 => exact ⟨_, rfl, rfl, rfl⟩

theorem leaves_conditional {condition then_ else_ : Ast α} {question colon : ByteRange}
    {branches last : List PlacedToken}
    (hcondition : Leaves (operation stop BinaryOp.loosest) tokens condition
      (⟨.sign .question, question⟩ :: branches))
    (hthen : Leaves (expression stop) branches then_ (⟨.sign .colon, colon⟩ :: last))
    (helse : Leaves (expression stop) last else_ rest) :
    Leaves (expression stop) tokens
      (.conditional condition then_ else_ (condition.range.through else_.range)) rest := by
  obtain ⟨⟨condition, after, hshort⟩, hcondition, rfl, rfl⟩ := hcondition
  obtain ⟨⟨then_, after, hshort⟩, hthen, rfl, rfl⟩ := hthen
  obtain ⟨⟨else_, rest, hshort⟩, helse, rfl, rfl⟩ := helse
  rw [Leaves, expression, hcondition]
  simp only [bind, Except.bind, hthen, expectSign_cons, helse]
  exact ⟨_, rfl, rfl, rfl⟩

theorem leaves_operand (h : Leaves (unary stop) tokens ast rest) :
    Leaves (operation stop 0) tokens ast rest := by
  rw [Leaves, operation]
  exact h

theorem leaves_level (hfirst : Leaves (operation stop k) tokens left between)
    (hrest : Leaves (operations stop k left) between ast rest) :
    Leaves (operation stop (k + 1)) tokens ast rest := by
  obtain ⟨⟨left, between, hshort⟩, hfirst, rfl, rfl⟩ := hfirst
  obtain ⟨p, hrest, rfl, rfl⟩ := hrest
  rw [Leaves, operation, hfirst]
  simp only [bind, Except.bind, hrest]
  exact ⟨_, rfl, rfl, rfl⟩

theorem leaves_operations_done (hrest : NotNext (fun t => (operator? (k + 1) t).isSome) rest) :
    Leaves (operations stop k left) rest left rest := by
  cases rest with
  | nil =>
      rw [Leaves, operations]
      exact ⟨_, rfl, rfl, rfl⟩
  | cons t rest =>
      rw [Leaves, operations, Option.not_isSome_iff_eq_none.mp (hrest t rfl)]
      exact ⟨_, rfl, rfl, rfl⟩

theorem leaves_operations_more {t : PlacedToken} {op : BinaryOp} (hop : operator? (k + 1) t = op)
    (hright : Leaves (operation stop k) tokens right between)
    (hrest : Leaves (operations stop k (.ofBinary op left right)) between ast rest) :
    Leaves (operations stop k left) (t :: tokens) ast rest := by
  obtain ⟨⟨right, between, hshort⟩, hright, rfl, rfl⟩ := hright
  obtain ⟨p, hrest, rfl, rfl⟩ := hrest
  rw [Leaves, operations, hop]
  simp only [bind, Except.bind, hright, hrest]
  exact ⟨_, rfl, rfl, rfl⟩

/-! ### Operands -/

theorem leaves_signed {t : PlacedToken} {op : UnaryOp} (hop : unaryOperator? t = op)
    (h : Leaves (unary stop) tokens ast rest) :
    Leaves (unary stop) (t :: tokens) (.unary op ast (t.range.through ast.range)) rest := by
  obtain ⟨p, hread, rfl, rfl⟩ := h
  rw [Leaves, unary, hop]
  simp only [bind, Except.bind, hread]
  exact ⟨_, rfl, rfl, rfl⟩

theorem leaves_value {t : PlacedToken} (hop : unaryOperator? t = none)
    (hfirst : Leaves (primary stop t) tokens object between)
    (hrest : Leaves (suffixes stop object) between ast rest) :
    Leaves (unary stop) (t :: tokens) ast rest := by
  obtain ⟨⟨object, between, hshort⟩, hfirst, rfl, rfl⟩ := hfirst
  obtain ⟨p, hrest, rfl, rfl⟩ := hrest
  rw [Leaves, unary, hop]
  simp only [bind, Except.bind, hfirst, hrest]
  exact ⟨_, rfl, rfl, rfl⟩

theorem leaves_suffixes_done
    (hrest : NotNext (fun t => t.token = .sign .dot ∨ t.token = .sign .openBracket) rest) :
    Leaves (suffixes stop object) rest object rest := by
  rw [Leaves, suffixes.eq_def]
  split
  case h_5 => exact ⟨_, rfl, rfl, rfl⟩
  case h_4 => exact absurd (.inr rfl) (hrest _ rfl)
  all_goals exact absurd (.inl rfl) (hrest _ rfl)

theorem leaves_member {dot range : ByteRange} {name : String}
    (h : Leaves (suffixes stop (.member object name (object.range.through range))) tokens ast
      rest) :
    Leaves (suffixes stop object) (⟨.sign .dot, dot⟩ :: ⟨.word name, range⟩ :: tokens)
      ast rest := by
  obtain ⟨p, hread, rfl, rfl⟩ := h
  rw [Leaves, suffixes, hread]
  exact ⟨_, rfl, rfl, rfl⟩

theorem leaves_index {opening close : ByteRange} {index : Ast α}
    (hindex : Leaves (expression stop) tokens index (⟨.sign .closeBracket, close⟩ :: between))
    (hrest : Leaves (suffixes stop (.index object index (object.range.through close))) between
      ast rest) :
    Leaves (suffixes stop object) (⟨.sign .openBracket, opening⟩ :: tokens) ast rest := by
  obtain ⟨⟨index, after, hshort⟩, hindex, rfl, rfl⟩ := hindex
  obtain ⟨p, hrest, rfl, rfl⟩ := hrest
  rw [ByteRange.through] at hrest
  rw [Leaves, suffixes]
  simp only [bind, Except.bind, hindex, expectSign_cons, hrest]
  exact ⟨_, rfl, rfl, rfl⟩

/-! ### Values -/

theorem leaves_number {written : List Char} {range : ByteRange} :
    Leaves (primary (α := α) stop ⟨.number written, range⟩) rest
      (.literal (numberValue written) range) rest := by
  rw [Leaves, primary]
  exact ⟨_, rfl, rfl, rfl⟩

theorem leaves_text {written : List Char} {range : ByteRange} :
    Leaves (primary (α := α) stop ⟨.text written, range⟩) rest
      (.literal (.string (String.ofList (unescape written))) range) rest := by
  rw [Leaves, primary]
  exact ⟨_, rfl, rfl, rfl⟩

theorem leaves_truth {b : Bool} {range : ByteRange} :
    Leaves (primary (α := α) stop ⟨.truth b, range⟩) rest (.literal (.bool b) range) rest := by
  rw [Leaves, primary]
  exact ⟨_, rfl, rfl, rfl⟩

theorem leaves_name {name : String} {range : ByteRange}
    (hrest : NotNext (·.token = .sign .openParen) rest) :
    Leaves (primary (α := α) stop ⟨.word name, range⟩) rest (.name name range) rest := by
  rw [Leaves, primary.eq_def]
  dsimp only
  split
  case h_1 => exact absurd rfl (hrest _ rfl)
  case h_2 => exact ⟨_, rfl, rfl, rfl⟩

theorem leaves_call {name : String} {range opening : ByteRange} {arguments : List (Ast α)}
    {last : Nat} (h : LeavesItems (sequence stop .closeParen) tokens arguments last rest) :
    Leaves (primary stop ⟨.word name, range⟩) (⟨.sign .openParen, opening⟩ :: tokens)
      (.call name arguments ⟨range.start, last⟩) rest := by
  obtain ⟨p, hread, rfl, rfl, rfl⟩ := h
  rw [Leaves, primary.eq_def]
  simp only [bind, Except.bind, hread]
  exact ⟨_, rfl, rfl, rfl⟩

theorem leaves_group {opening close : ByteRange}
    (h : Leaves (expression stop) tokens ast (⟨.sign .closeParen, close⟩ :: rest)) :
    Leaves (primary stop ⟨.sign .openParen, opening⟩) tokens
      (ast.withRange (opening.through close)) rest := by
  obtain ⟨⟨ast, after, hshort⟩, hread, rfl, rfl⟩ := h
  rw [Leaves, primary.eq_def]
  simp only [bind, Except.bind, hread, expectSign_cons]
  exact ⟨_, rfl, rfl, rfl⟩

theorem leaves_list {opening : ByteRange} {items : List (Ast α)} {last : Nat}
    (h : LeavesItems (sequence stop .closeBracket) tokens items last rest) :
    Leaves (primary stop ⟨.sign .openBracket, opening⟩) tokens
      (.list items ⟨opening.start, last⟩) rest := by
  obtain ⟨p, hread, rfl, rfl, rfl⟩ := h
  rw [Leaves, primary.eq_def]
  simp only [bind, Except.bind, hread]
  exact ⟨_, rfl, rfl, rfl⟩

/-! ### Formulas between commas -/

variable {close : Sign} {items : List (Ast α)} {last : Nat}

theorem leaves_none (range : ByteRange) :
    LeavesItems (α := α) (sequence stop close) (⟨.sign close, range⟩ :: rest) [] range.stop
      rest := by
  rw [LeavesItems, sequence, if_pos rfl]
  exact ⟨_, rfl, rfl, rfl, rfl⟩

theorem leaves_some (hnext : NotNext (·.token = .sign close) tokens)
    (h : LeavesItems (FormulaParser.items stop close) tokens items last rest) :
    LeavesItems (sequence stop close) tokens items last rest := by
  cases tokens with
  | nil =>
      rw [LeavesItems, sequence]
      exact h
  | cons t tokens =>
      rw [LeavesItems, sequence, if_neg (hnext t rfl)]
      exact h

theorem leaves_last {range : ByteRange} (hclose : close ≠ .comma)
    (h : Leaves (expression stop) tokens ast (⟨.sign close, range⟩ :: rest)) :
    LeavesItems (FormulaParser.items stop close) tokens [ast] range.stop rest := by
  obtain ⟨⟨ast, after, hshort⟩, hread, rfl, rfl⟩ := h
  rw [LeavesItems, FormulaParser.items, hread]
  simp only [bind, Except.bind]
  split
  case h_1 heq =>
    cases heq
    exact absurd rfl hclose
  case h_2 =>
    rw [expectSign_cons]
    exact ⟨_, rfl, rfl, rfl, rfl⟩

theorem leaves_more {comma : ByteRange}
    (hfirst : Leaves (expression stop) tokens ast (⟨.sign .comma, comma⟩ :: between))
    (hmore : LeavesItems (FormulaParser.items stop close) between items last rest) :
    LeavesItems (FormulaParser.items stop close) tokens (ast :: items) last rest := by
  obtain ⟨⟨ast, after, hshort⟩, hread, rfl, rfl⟩ := hfirst
  obtain ⟨p, hmore, rfl, rfl, rfl⟩ := hmore
  rw [LeavesItems, FormulaParser.items, hread]
  simp only [bind, Except.bind, hmore]
  exact ⟨_, rfl, rfl, rfl, rfl⟩

end FormulaParser

end PatternMarkup
