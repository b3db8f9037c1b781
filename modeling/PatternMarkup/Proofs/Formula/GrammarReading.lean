import PatternMarkup.Proofs.Formula.Grammar
/-!
Reading formulas follows the grammar. A reader that returns has taken the tokens of a derivation
and built the formula it stands for, and tokens that a phrase derives are read as that phrase
whenever what follows them does not go on with it.
-/

namespace PatternMarkup

namespace FormulaParser

open FormulaGrammar

/-! ### Tokens without places -/

/-- What the tokens are, wherever they stand. -/
def kinds (tokens : List PlacedToken) : List FormulaToken := tokens.map (·.token)

@[simp] theorem kinds_nil : kinds [] = [] := rfl

@[simp] theorem kinds_cons (t : PlacedToken) (tokens : List PlacedToken) :
    kinds (t :: tokens) = t.token :: kinds tokens := rfl

theorem kinds_eq_cons {tokens : List PlacedToken} {kind : FormulaToken}
    {later : List FormulaToken} (h : kinds tokens = kind :: later) :
    ∃ range after, tokens = ⟨kind, range⟩ :: after ∧ kinds after = later := by
  rcases tokens with _ | ⟨⟨token, range⟩, after⟩
  · cases h
  · obtain ⟨rfl, rfl⟩ := List.cons_eq_cons.mp h
    exact ⟨range, after, rfl, rfl⟩

theorem kinds_eq_nil {tokens : List PlacedToken} (h : kinds tokens = []) : tokens = [] :=
  List.map_eq_nil_iff.mp h

/-! ### Operators -/

theorem operatorAt_iff {k : Nat} {s : Sign} {op : BinaryOp} :
    OperatorAt k s op ↔ s.binaryOp? = some op ∧ op.looseness = k := by
  constructor
  · intro h
    cases h <;> exact ⟨rfl, rfl⟩
  · rintro ⟨hop, rfl⟩
    cases s <;> cases hop <;> constructor

theorem operator?_eq_some_iff {k : Nat} {t : PlacedToken} {op : BinaryOp} :
    operator? k t = some op ↔ ∃ s, t.token = .sign s ∧ OperatorAt k s op := by
  obtain ⟨token, range⟩ := t
  cases token with
  | sign s => simp [operator?, operatorAt_iff, Option.filter_eq_some_iff]
  | _ => simp [operator?]

theorem unaryOperator?_eq_some_iff {t : PlacedToken} {op : UnaryOp} :
    unaryOperator? t = some op ↔ t.token = .sign (signOf op) := by
  obtain ⟨token, range⟩ := t
  cases token with
  | sign s => cases s <;> cases op <;> simp [unaryOperator?, Sign.unaryOp?, signOf]
  | _ => simp [unaryOperator?]

theorem withoutRanges_ofBinary {α : Type} (op : BinaryOp) (left right : Ast α) :
    (Ast.ofBinary op left right).withoutRanges
      = .binary op left.withoutRanges right.withoutRanges ⟨0, 0⟩ := by
  rw [Ast.ofBinary, Ast.withoutRanges]

/-! ### What is read is derived -/

theorem exists_of_bind_eq_ok {ε β γ : Type} {x : Except ε β} {f : β → Except ε γ} {c : γ}
    (h : x >>= f = .ok c) : ∃ b, x = .ok b ∧ f b = .ok c := by
  cases x with
  | error e => cases h
  | ok b => exact ⟨b, rfl, h⟩

variable {α : Type} [Number α]

theorem expectSign_sound {stop : Nat} {sign : Sign} {tokens : List PlacedToken}
    {closed : Closed tokens.length} (h : expectSign α stop sign tokens = .ok closed) :
    kinds tokens = .sign sign :: kinds closed.rest := by
  cases tokens with
  | nil => cases h
  | cons t rest =>
      rw [expectSign] at h
      split at h
      case isTrue ht =>
        cases h
        rw [kinds_cons, ht]
      case isFalse => cases h

mutual

/-- A formula that is read is derived from the tokens taken. The induction follows the reader:
every call is on fewer tokens, or on the same tokens under a rule that binds tighter. -/
theorem expression_sound (stop : Nat) (tokens : List PlacedToken) (p : Parsed α tokens.length)
    (h : expression stop tokens = .ok p) :
    ∃ d : Expr, kinds tokens = d.tokens ++ kinds p.rest ∧ p.ast.withoutRanges = d.ast := by
  rw [expression] at h
  obtain ⟨⟨ast, rest, hshort⟩, hcondition, h⟩ := exists_of_bind_eq_ok h
  obtain ⟨condition, htokens, hast⟩ : ∃ d : Operation 6,
      kinds tokens = d.tokens ++ kinds rest ∧ ast.withoutRanges = d.ast :=
    operation_sound stop BinaryOp.loosest tokens _ hcondition
  split at h
  case h_1 _ range after hrest =>
    have hlen : after.length < tokens.length := length_lt_of_eq_cons hrest hshort
    obtain ⟨then_, hthen, h⟩ := exists_of_bind_eq_ok h
    obtain ⟨colon, hcolon, h⟩ := exists_of_bind_eq_ok h
    obtain ⟨else_, helse, h⟩ := exists_of_bind_eq_ok h
    have := colon.shorter
    have := then_.shorter
    obtain ⟨dthen, hthenTokens, hthenAst⟩ := expression_sound stop after then_ hthen
    obtain ⟨delse, helseTokens, helseAst⟩ := expression_sound stop colon.rest else_ helse
    cases h
    obtain rfl : rest = _ := hrest
    refine ⟨.conditional condition dthen delse, ?_, ?_⟩
    · simp [htokens, Expr.tokens, hthenTokens, expectSign_sound hcolon, helseTokens]
    · rw [Ast.withoutRanges, hast, hthenAst, helseAst, Expr.ast]
  case h_2 =>
    cases h
    exact ⟨.plain condition, by rw [htokens, Expr.tokens], by rw [hast, Expr.ast]⟩
termination_by (tokens.length, BinaryOp.loosest + 3)

theorem operation_sound (stop k : Nat) (tokens : List PlacedToken) (p : Parsed α tokens.length)
    (h : operation stop k tokens = .ok p) :
    ∃ d : Operation k, kinds tokens = d.tokens ++ kinds p.rest
      ∧ p.ast.withoutRanges = d.ast := by
  cases k with
  | zero =>
      rw [operation] at h
      obtain ⟨operand, htokens, hast⟩ := unary_sound stop tokens p h
      exact ⟨.operand operand, by rw [htokens, Operation.tokens], by rw [hast, Operation.ast]⟩
  | succ k =>
      rw [operation] at h
      obtain ⟨first, hfirst, h⟩ := exists_of_bind_eq_ok h
      obtain ⟨all, hall, h⟩ := exists_of_bind_eq_ok h
      have := first.shorter
      obtain ⟨dfirst, hfirstTokens, hfirstAst⟩ := operation_sound stop k tokens first hfirst
      obtain ⟨tail, htailTokens, htailAst⟩ :=
        operations_sound stop k first.ast first.rest all hall
      cases h
      refine ⟨.level dfirst tail, ?_, ?_⟩
      · simp [Parsed.within, hfirstTokens, htailTokens, Operation.tokens]
      · rw [Parsed.within, htailAst, hfirstAst, Operation.ast]
termination_by (tokens.length, k + 2)

/-- Operators after a left operand that are read are derived from the tokens taken. -/
theorem operations_sound (stop k : Nat) (left : Ast α) : (tokens : List PlacedToken) →
    (p : Parsed α (tokens.length + 1)) → operations stop k left tokens = .ok p →
    ∃ d : Tail k, kinds tokens = d.tokens ++ kinds p.rest
      ∧ p.ast.withoutRanges = d.ast left.withoutRanges
  | [], p, h => by
      rw [operations] at h
      cases h
      exact ⟨.done, rfl, by rw [Tail.ast]⟩
  | t :: rest, p, h => by
      rw [operations] at h
      split at h
      case h_1 =>
        cases h
        exact ⟨.done, by rw [Tail.tokens, List.nil_append], by rw [Tail.ast]⟩
      case h_2 op hop =>
        obtain ⟨s, ht, stands⟩ := operator?_eq_some_iff.mp hop
        obtain ⟨right, hright, h⟩ := exists_of_bind_eq_ok h
        obtain ⟨all, hall, h⟩ := exists_of_bind_eq_ok h
        have := right.shorter
        obtain ⟨dright, hrightTokens, hrightAst⟩ := operation_sound stop k rest right hright
        obtain ⟨tail, htailTokens, htailAst⟩ :=
          operations_sound stop k (.ofBinary op left right.ast) right.rest all hall
        cases h
        refine ⟨.more s op stands dright tail, ?_, ?_⟩
        · simp [Parsed.within, ht, hrightTokens, htailTokens, Tail.tokens]
        · rw [Parsed.within, htailAst, withoutRanges_ofBinary, hrightAst, Tail.ast]
termination_by tokens => (tokens.length, 0)

theorem unary_sound (stop : Nat) : (tokens : List PlacedToken) →
    (p : Parsed α tokens.length) → unary stop tokens = .ok p →
    ∃ d : Unary, kinds tokens = d.tokens ++ kinds p.rest ∧ p.ast.withoutRanges = d.ast
  | [], p, h => by
      rw [unary] at h
      cases h
  | t :: rest, p, h => by
      rw [unary] at h
      split at h
      case h_1 op hop =>
        obtain ⟨operand, hoperand, h⟩ := exists_of_bind_eq_ok h
        obtain ⟨d, htokens, hast⟩ := unary_sound stop rest operand hoperand
        cases h
        refine ⟨.signed op d, ?_, by rw [Ast.withoutRanges, hast, Unary.ast]⟩
        simp [unaryOperator?_eq_some_iff.mp hop, htokens, Unary.tokens]
      case h_2 =>
        obtain ⟨first, hfirst, h⟩ := exists_of_bind_eq_ok h
        obtain ⟨all, hall, h⟩ := exists_of_bind_eq_ok h
        have := first.shorter
        obtain ⟨dfirst, hfirstTokens, hfirstAst⟩ := primary_sound stop t rest first hfirst
        obtain ⟨dall, hallTokens, hallAst⟩ :=
          suffixes_sound stop first.ast first.rest all hall
        cases h
        refine ⟨.value (.value dfirst dall), ?_, ?_⟩
        · simp [Parsed.within, hfirstTokens, hallTokens, Unary.tokens, Postfix.tokens]
        · rw [Parsed.within, hallAst, hfirstAst, Unary.ast, Postfix.ast]
termination_by tokens => (tokens.length, 1)

/-- Members and indices that are read are derived from the tokens taken. -/
theorem suffixes_sound (stop : Nat) (object : Ast α) (tokens : List PlacedToken)
    (p : Parsed α (tokens.length + 1)) (h : suffixes stop object tokens = .ok p) :
    ∃ d : Suffixes, kinds tokens = d.tokens ++ kinds p.rest
      ∧ p.ast.withoutRanges = d.ast object.withoutRanges := by
  rw [suffixes.eq_def] at h
  split at h
  case h_1 name _ rest =>
    obtain ⟨all, hall, h⟩ := exists_of_bind_eq_ok h
    obtain ⟨d, htokens, hast⟩ := suffixes_sound stop _ rest all hall
    cases h
    refine ⟨.member name d, ?_, by rw [Parsed.within, hast, Ast.withoutRanges, Suffixes.ast]⟩
    simp [Parsed.within, htokens, Suffixes.tokens]
  case h_2 => cases h
  case h_3 => cases h
  case h_4 _ rest =>
    obtain ⟨index, hindex, h⟩ := exists_of_bind_eq_ok h
    obtain ⟨close, hclose, h⟩ := exists_of_bind_eq_ok h
    -- The recursion is on what follows the bracket, which is less than what follows `[`.
    have : close.rest.length < rest.length + 1 :=
      Nat.lt_succ_of_lt (Nat.lt_trans close.shorter index.shorter)
    obtain ⟨all, hall, h⟩ := exists_of_bind_eq_ok h
    obtain ⟨dindex, hindexTokens, hindexAst⟩ := expression_sound stop rest index hindex
    obtain ⟨d, htokens, hast⟩ := suffixes_sound stop _ close.rest all hall
    cases h
    refine ⟨.index dindex d, ?_, ?_⟩
    · simp [Parsed.within, hindexTokens, expectSign_sound hclose, htokens, Suffixes.tokens]
    · rw [Parsed.within, hast, Ast.withoutRanges, hindexAst, Suffixes.ast]
  case h_5 =>
    cases h
    exact ⟨.done, by rw [Suffixes.tokens, List.nil_append], by rw [Suffixes.ast]⟩
termination_by (tokens.length, 0)

/-- A value that is read is derived from its first token and the tokens taken. -/
theorem primary_sound (stop : Nat) (first : PlacedToken) (tokens : List PlacedToken)
    (p : Parsed α (tokens.length + 1)) (h : primary stop first tokens = .ok p) :
    ∃ d : Primary, first.token :: kinds tokens = d.tokens ++ kinds p.rest
      ∧ p.ast.withoutRanges = d.ast := by
  rw [primary.eq_def] at h
  split at h
  case h_1 written hfirst =>
    cases h
    refine ⟨.number written, ?_, by rw [Ast.withoutRanges, Primary.ast]⟩
    simp [hfirst, Primary.tokens]
  case h_2 written hfirst =>
    cases h
    refine ⟨.text written, ?_, by rw [Ast.withoutRanges, Primary.ast]⟩
    simp [hfirst, Primary.tokens]
  case h_3 b hfirst =>
    cases h
    refine ⟨.truth b, ?_, by rw [Ast.withoutRanges, Primary.ast]⟩
    simp [hfirst, Primary.tokens]
  case h_4 name hfirst =>
    split at h
    case h_1 _ rest =>
      obtain ⟨arguments, harguments, h⟩ := exists_of_bind_eq_ok h
      obtain ⟨d, htokens, hasts⟩ := sequence_sound stop .closeParen rest arguments harguments
      cases h
      refine ⟨.call name d, ?_, by rw [Ast.withoutRanges, hasts, Primary.ast]⟩
      simp [hfirst, htokens, Primary.tokens]
    case h_2 =>
      cases h
      refine ⟨.name name, ?_, by rw [Ast.withoutRanges, Primary.ast]⟩
      simp [hfirst, Primary.tokens]
  case h_5 hfirst =>
    obtain ⟨inner, hinner, h⟩ := exists_of_bind_eq_ok h
    obtain ⟨close, hclose, h⟩ := exists_of_bind_eq_ok h
    obtain ⟨d, htokens, hast⟩ := expression_sound stop tokens inner hinner
    cases h
    refine ⟨.group d, ?_, by rw [Ast.withoutRanges_withRange, hast, Primary.ast]⟩
    simp [hfirst, htokens, expectSign_sound hclose, Primary.tokens]
  case h_6 hfirst =>
    obtain ⟨items, hitems, h⟩ := exists_of_bind_eq_ok h
    obtain ⟨d, htokens, hasts⟩ := sequence_sound stop .closeBracket tokens items hitems
    cases h
    refine ⟨.list d, ?_, by rw [Ast.withoutRanges, hasts, Primary.ast]⟩
    simp [hfirst, htokens, Primary.tokens]
  case h_7 => cases h
termination_by (tokens.length, BinaryOp.loosest + 6)

/-- A sequence that is read is derived from the tokens taken, but for its closing sign. -/
theorem sequence_sound (stop : Nat) (close : Sign) : (tokens : List PlacedToken) →
    (p : ParsedItems α tokens.length) → sequence stop close tokens = .ok p →
    ∃ d : Sequence, kinds tokens = d.tokens ++ .sign close :: kinds p.rest
      ∧ Ast.allWithoutRanges p.items = d.asts
  | [], p, h => by
      rw [sequence] at h
      obtain ⟨d, htokens, hasts⟩ := items_sound stop close [] p h
      exact ⟨.some d, by rw [htokens, Sequence.tokens], by rw [hasts, Sequence.asts]⟩
  | t :: rest, p, h => by
      rw [sequence] at h
      split at h
      case isTrue ht =>
        cases h
        exact ⟨.none, by rw [kinds_cons, ht, Sequence.tokens, List.nil_append],
          by rw [Ast.allWithoutRanges, Sequence.asts]⟩
      case isFalse =>
        obtain ⟨d, htokens, hasts⟩ := items_sound stop close (t :: rest) p h
        exact ⟨.some d, by rw [htokens, Sequence.tokens], by rw [hasts, Sequence.asts]⟩
termination_by tokens => (tokens.length, BinaryOp.loosest + 5)

theorem items_sound (stop : Nat) (close : Sign) (tokens : List PlacedToken)
    (p : ParsedItems α tokens.length) (h : items stop close tokens = .ok p) :
    ∃ d : Items, kinds tokens = d.tokens ++ .sign close :: kinds p.rest
      ∧ Ast.allWithoutRanges p.items = d.asts := by
  rw [items] at h
  obtain ⟨⟨ast, rest, hshort⟩, hfirst, h⟩ := exists_of_bind_eq_ok h
  obtain ⟨first, htokens, hast⟩ := expression_sound stop tokens _ hfirst
  split at h
  case h_1 _ range after hrest =>
    have hlen : after.length < tokens.length := length_lt_of_eq_cons hrest hshort
    obtain ⟨more, hmore, h⟩ := exists_of_bind_eq_ok h
    obtain ⟨d, hmoreTokens, hasts⟩ := items_sound stop close after more hmore
    cases h
    obtain rfl : rest = _ := hrest
    refine ⟨.more first d, ?_, ?_⟩
    · simp [htokens, hmoreTokens, Items.tokens]
    · rw [Ast.allWithoutRanges, hast, hasts, Items.asts]
  case h_2 =>
    obtain ⟨closed, hclosed, h⟩ := exists_of_bind_eq_ok h
    cases h
    refine ⟨.last first, ?_, ?_⟩
    · rw [htokens, expectSign_sound hclosed, Items.tokens]
    · rw [Ast.allWithoutRanges, hast, Ast.allWithoutRanges, Items.asts]
termination_by (tokens.length, BinaryOp.loosest + 4)

end

/-! ### What is derived is read -/

/-- A reader returns a formula, wherever it stands, and leaves tokens of the given kinds. -/
def Returns {n : Nat} (result : Except FormatError (Parsed α n)) (ast : Ast α)
    (rest : List FormulaToken) : Prop :=
  ∃ p, result = .ok p ∧ p.ast.withoutRanges = ast ∧ kinds p.rest = rest

/-- The same for a reader of several formulas. -/
def ReturnsItems {n : Nat} (result : Except FormatError (ParsedItems α n)) (asts : List (Ast α))
    (rest : List FormulaToken) : Prop :=
  ∃ p, result = .ok p ∧ Ast.allWithoutRanges p.items = asts ∧ kinds p.rest = rest

theorem expectSign_complete (α : Type) [Number α] (stop : Nat) {sign : Sign}
    {tokens : List PlacedToken} {rest : List FormulaToken} (h : kinds tokens = .sign sign :: rest) :
    ∃ closed, expectSign α stop sign tokens = .ok closed ∧ kinds closed.rest = rest := by
  obtain ⟨range, after, rfl, rfl⟩ := kinds_eq_cons h
  exact ⟨_, if_pos rfl, rfl⟩

theorem operator?_eq_none {k : Nat} {t : PlacedToken} {rest : List FormulaToken}
    (h : Ends k (t.token :: rest)) : operator? k t = none := by
  rw [Option.eq_none_iff_forall_not_mem]
  intro op hop
  obtain ⟨s, ht, stands⟩ := operator?_eq_some_iff.mp hop
  rw [ht] at h
  exact h.2.2.2 k (Nat.le_refl k) op stands

theorem unaryOperator?_eq_none {t : PlacedToken} (h : StartsValue t.token) :
    unaryOperator? t = none := by
  rw [Option.eq_none_iff_forall_not_mem]
  intro op hop
  rw [unaryOperator?_eq_some_iff.mp hop] at h
  cases op <;> simp [StartsValue, signOf] at h

mutual

/-- A formula is read from the tokens of its derivation, whatever closes it. The induction is on
the derivation, which the reader follows rule by rule. -/
theorem expression_complete (stop : Nat) : (d : Expr) → {tokens : List PlacedToken} →
    {rest : List FormulaToken} → kinds tokens = d.tokens ++ rest → Closes rest →
    Returns (expression (α := α) stop tokens) d.ast rest
  | .plain operation, tokens, rest, h, hrest => by
      rw [Expr.tokens] at h
      obtain ⟨⟨ast, after, hshort⟩, hread, hast, rfl⟩ :=
        operation_complete stop operation h hrest.1
      rw [expression, BinaryOp.loosest, hread, Expr.ast]
      simp only [bind, Except.bind]
      -- What is left closes a formula, so the reader finds no `?` there.
      split
      case h_1 _ _ later => exact absurd rfl (hrest.2 (kinds later))
      case h_2 => exact ⟨_, rfl, hast, rfl⟩
  | .conditional condition then_ else_, tokens, rest, h, hrest => by
      rw [Expr.tokens, List.append_assoc, List.cons_append, List.append_assoc,
        List.cons_append] at h
      obtain ⟨⟨conditionAst, question, hquestionShort⟩, hcondition, hconditionAst, hquestion⟩ :=
        operation_complete stop condition h (ends_question _)
      obtain ⟨range, branches, rfl, hbranches⟩ := kinds_eq_cons hquestion
      obtain ⟨⟨thenAst, colon, hcolonShort⟩, hthen, hthenAst, hcolon⟩ :=
        expression_complete stop then_ hbranches (closes_colon _)
      obtain ⟨⟨_, after, hafterShort⟩, hsign, hafter⟩ := expectSign_complete α stop hcolon
      obtain ⟨⟨elseAst, later, hlaterShort⟩, helse, helseAst, hlater⟩ :=
        expression_complete stop else_ hafter hrest
      rw [expression, BinaryOp.loosest, hcondition, Expr.ast]
      simp only [bind, Except.bind, hthen, hsign, helse]
      refine ⟨_, rfl, ?_, hlater⟩
      rw [Ast.withoutRanges, hconditionAst, hthenAst, helseAst]
termination_by structural d => d

theorem operation_complete (stop : Nat) : {k : Nat} → (d : Operation k) →
    {tokens : List PlacedToken} → {rest : List FormulaToken} → kinds tokens = d.tokens ++ rest →
    Ends k rest → Returns (operation (α := α) stop k tokens) d.ast rest
  | _, .operand operand, tokens, rest, h, hrest => by
      rw [Operation.tokens] at h
      rw [operation, Operation.ast]
      exact unary_complete stop operand h hrest
  | _, .level first tail, tokens, rest, h, hrest => by
      rw [Operation.tokens, List.append_assoc] at h
      obtain ⟨⟨left, between, hshort⟩, hfirst, hleft, hbetween⟩ :=
        operation_complete stop first h (tail.ends hrest)
      obtain ⟨all, htail, hall, hallRest⟩ :=
        operations_complete stop tail left hbetween hrest
      rw [operation, hfirst, Operation.ast, ← hleft]
      simp only [bind, Except.bind, htail]
      exact ⟨_, rfl, hall, hallRest⟩
termination_by structural _ d => d

/-- Operators are read after any left operand. -/
theorem operations_complete (stop : Nat) : {k : Nat} → (d : Tail k) → (left : Ast α) →
    {tokens : List PlacedToken} → {rest : List FormulaToken} → kinds tokens = d.tokens ++ rest →
    Ends (k + 1) rest → Returns (operations stop k left tokens) (d.ast left.withoutRanges) rest
  | _, .done, left, [], rest, h, hrest => by
      rw [operations, Tail.ast]
      exact ⟨_, rfl, rfl, h⟩
  | _, .done, left, t :: after, rest, h, hrest => by
      rw [Tail.tokens, List.nil_append] at h
      rw [operations, operator?_eq_none (h ▸ hrest), Tail.ast]
      exact ⟨_, rfl, rfl, h⟩
  | _, .more sign op stands right tail, left, tokens, rest, h, hrest => by
      rw [Tail.tokens, List.cons_append, List.append_assoc] at h
      obtain ⟨range, after, rfl, hafter⟩ := kinds_eq_cons h
      obtain ⟨⟨ast, between, hshort⟩, hright, hast, hbetween⟩ :=
        operation_complete stop right hafter (tail.ends hrest)
      obtain ⟨all, htail, hall, hallRest⟩ :=
        operations_complete stop tail (.ofBinary op left ast) hbetween hrest
      rw [operations, operator?_eq_some_iff.mpr ⟨sign, rfl, stands⟩]
      simp only [bind, Except.bind, hright, htail]
      refine ⟨_, rfl, ?_, hallRest⟩
      rw [Parsed.within, hall, withoutRanges_ofBinary, hast, Tail.ast]
termination_by structural _ d => d

theorem unary_complete (stop : Nat) : (d : Unary) → {tokens : List PlacedToken} →
    {rest : List FormulaToken} → kinds tokens = d.tokens ++ rest → Ends 0 rest →
    Returns (unary (α := α) stop tokens) d.ast rest
  | .signed op operand, tokens, rest, h, hrest => by
      rw [Unary.tokens, List.cons_append] at h
      obtain ⟨range, after, rfl, hafter⟩ := kinds_eq_cons h
      obtain ⟨p, hoperand, hast, hp⟩ := unary_complete stop operand hafter hrest
      rw [unary, unaryOperator?_eq_some_iff.mpr rfl, Unary.ast]
      simp only [bind, Except.bind, hoperand]
      exact ⟨_, rfl, by rw [Ast.withoutRanges, hast], hp⟩
  | .value (.value first suffixes), tokens, rest, h, hrest => by
      obtain ⟨kind, later, hfirstTokens, hkind⟩ := first.starts
      rw [Unary.tokens, Postfix.tokens, List.append_assoc, hfirstTokens, List.cons_append] at h
      obtain ⟨range, after, rfl, hafter⟩ := kinds_eq_cons h
      have hvalue : kind :: kinds after = first.tokens ++ (suffixes.tokens ++ rest) := by
        rw [hfirstTokens, hafter, List.cons_append]
      obtain ⟨⟨object, between, hshort⟩, hfirst, hobject, hbetween⟩ : Returns
          (primary stop ⟨kind, range⟩ after) (first.ast : Ast α) (suffixes.tokens ++ rest) :=
        primary_complete stop first hvalue (suffixes.head_ne hrest)
      obtain ⟨all, hsuffixes, hall, hallRest⟩ :=
        suffixes_complete stop suffixes object hbetween hrest
      rw [unary, unaryOperator?_eq_none hkind, Unary.ast, Postfix.ast, ← hobject]
      simp only [bind, Except.bind, hfirst, hsuffixes]
      exact ⟨_, rfl, hall, hallRest⟩
termination_by structural d => d

/-- Members and indices are read after any object. -/
theorem suffixes_complete (stop : Nat) : (d : Suffixes) → (object : Ast α) →
    {tokens : List PlacedToken} → {rest : List FormulaToken} → kinds tokens = d.tokens ++ rest →
    Ends 0 rest → Returns (suffixes stop object tokens) (d.ast object.withoutRanges) rest
  | .done, object, tokens, rest, h, hrest => by
      rw [Suffixes.tokens, List.nil_append] at h
      subst h
      rw [suffixes.eq_def, Suffixes.ast]
      split
      case h_5 => exact ⟨_, rfl, rfl, rfl⟩
      case h_4 => exact absurd rfl hrest.2.1
      all_goals exact absurd rfl hrest.1
  | .member name d, object, tokens, rest, h, hrest => by
      rw [Suffixes.tokens, List.cons_append, List.cons_append] at h
      obtain ⟨_, named, rfl, hnamed⟩ := kinds_eq_cons h
      obtain ⟨range, after, rfl, hafter⟩ := kinds_eq_cons hnamed
      obtain ⟨all, hread, hall, hallRest⟩ :=
        suffixes_complete stop d (.member object name (object.range.through range)) hafter hrest
      rw [suffixes, hread, Suffixes.ast]
      refine ⟨_, rfl, ?_, hallRest⟩
      rw [Parsed.within, hall, Ast.withoutRanges]
  | .index index d, object, tokens, rest, h, hrest => by
      rw [Suffixes.tokens, List.cons_append, List.append_assoc, List.cons_append] at h
      obtain ⟨_, inner, rfl, hinner⟩ := kinds_eq_cons h
      obtain ⟨⟨ast, close, hcloseShort⟩, hindex, hast, hclose⟩ :=
        expression_complete stop index hinner (closes_closeBracket _)
      obtain ⟨⟨last, after, hafterShort⟩, hsign, hafter⟩ := expectSign_complete α stop hclose
      obtain ⟨all, hread, hall, hallRest⟩ :=
        suffixes_complete stop d (.index object ast ⟨object.range.start, last⟩) hafter hrest
      rw [suffixes, Suffixes.ast]
      simp only [bind, Except.bind, hindex, hsign, hread]
      refine ⟨_, rfl, ?_, hallRest⟩
      rw [Parsed.within, hall, Ast.withoutRanges, hast]
termination_by structural d => d

/-- A value is read from its tokens unless arguments follow a name. -/
theorem primary_complete (stop : Nat) : (d : Primary) → {first : PlacedToken} →
    {tokens : List PlacedToken} → {rest : List FormulaToken} →
    first.token :: kinds tokens = d.tokens ++ rest →
    (∀ later, rest ≠ .sign .openParen :: later) →
    Returns (primary (α := α) stop first tokens) d.ast rest
  | .number written, ⟨token, range⟩, tokens, rest, h, hrest => by
      rw [Primary.tokens] at h
      obtain ⟨rfl, rfl⟩ := List.cons_eq_cons.mp h
      rw [primary, Primary.ast]
      exact ⟨_, rfl, by rw [Ast.withoutRanges], rfl⟩
  | .text written, ⟨token, range⟩, tokens, rest, h, hrest => by
      rw [Primary.tokens] at h
      obtain ⟨rfl, rfl⟩ := List.cons_eq_cons.mp h
      rw [primary, Primary.ast]
      exact ⟨_, rfl, by rw [Ast.withoutRanges], rfl⟩
  | .truth b, ⟨token, range⟩, tokens, rest, h, hrest => by
      rw [Primary.tokens] at h
      obtain ⟨rfl, rfl⟩ := List.cons_eq_cons.mp h
      rw [primary, Primary.ast]
      exact ⟨_, rfl, by rw [Ast.withoutRanges], rfl⟩
  | .name name, ⟨token, range⟩, tokens, rest, h, hrest => by
      rw [Primary.tokens] at h
      obtain ⟨rfl, rfl⟩ := List.cons_eq_cons.mp h
      rw [primary.eq_def, Primary.ast]
      dsimp only
      split
      case h_1 _ _ later => exact absurd rfl (hrest (kinds later))
      case h_2 => exact ⟨_, rfl, by rw [Ast.withoutRanges], rfl⟩
  | .call function arguments, ⟨token, range⟩, tokens, rest, h, hrest => by
      rw [Primary.tokens, List.cons_append, List.cons_append, List.append_assoc,
        List.cons_append, List.nil_append] at h
      obtain ⟨rfl, hopen⟩ := List.cons_eq_cons.mp h
      obtain ⟨_, inner, rfl, hinner⟩ := kinds_eq_cons hopen
      obtain ⟨all, hread, hasts, hall⟩ := sequence_complete stop arguments (.inl rfl) hinner
      rw [primary.eq_def, Primary.ast]
      simp only [bind, Except.bind, hread]
      exact ⟨_, rfl, by rw [Ast.withoutRanges, hasts], hall⟩
  | .group inner, ⟨token, range⟩, tokens, rest, h, hrest => by
      rw [Primary.tokens, List.cons_append, List.append_assoc, List.cons_append,
        List.nil_append] at h
      obtain ⟨rfl, hinner⟩ := List.cons_eq_cons.mp h
      obtain ⟨⟨ast, close, hcloseShort⟩, hread, hast, hclose⟩ :=
        expression_complete stop inner hinner (closes_closeParen _)
      obtain ⟨⟨last, after, hafterShort⟩, hsign, hafter⟩ := expectSign_complete α stop hclose
      rw [primary.eq_def, Primary.ast]
      simp only [bind, Except.bind, hread, hsign]
      exact ⟨_, rfl, by rw [Ast.withoutRanges_withRange, hast], hafter⟩
  | .list items, ⟨token, range⟩, tokens, rest, h, hrest => by
      rw [Primary.tokens, List.cons_append, List.append_assoc, List.cons_append,
        List.nil_append] at h
      obtain ⟨rfl, hitems⟩ := List.cons_eq_cons.mp h
      obtain ⟨all, hread, hasts, hall⟩ := sequence_complete stop items (.inr rfl) hitems
      rw [primary.eq_def, Primary.ast]
      simp only [bind, Except.bind, hread]
      exact ⟨_, rfl, by rw [Ast.withoutRanges, hasts], hall⟩
termination_by structural d => d

/-- A sequence is read up to its closing sign. -/
theorem sequence_complete (stop : Nat) : (d : Sequence) → {close : Sign} →
    {tokens : List PlacedToken} → {rest : List FormulaToken} → ClosesSequence close →
    kinds tokens = d.tokens ++ .sign close :: rest →
    ReturnsItems (sequence (α := α) stop close tokens) d.asts rest
  | .none, close, tokens, rest, hclose, h => by
      rw [Sequence.tokens, List.nil_append] at h
      obtain ⟨_, after, rfl, hafter⟩ := kinds_eq_cons h
      rw [sequence, if_pos rfl, Sequence.asts]
      exact ⟨_, rfl, by rw [Ast.allWithoutRanges], hafter⟩
  | .some all, close, tokens, rest, hclose, h => by
      rw [Sequence.tokens] at h
      obtain ⟨kind, later, htokens, hkind⟩ := all.starts
      obtain ⟨range, after, rfl, -⟩ := kinds_eq_cons (h.trans (by rw [htokens]; rfl))
      rw [sequence, if_neg, Sequence.asts]
      · exact items_complete stop all hclose h
      · rintro rfl
        exact hclose.not_starts hkind
termination_by structural d => d

theorem items_complete (stop : Nat) : (d : Items) → {close : Sign} →
    {tokens : List PlacedToken} → {rest : List FormulaToken} → ClosesSequence close →
    kinds tokens = d.tokens ++ .sign close :: rest →
    ReturnsItems (items (α := α) stop close tokens) d.asts rest
  | .last item, close, tokens, rest, hclose, h => by
      rw [Items.tokens] at h
      obtain ⟨⟨ast, closing, hclosingShort⟩, hread, hast, hclosing⟩ :=
        expression_complete stop item h (hclose.closes _)
      obtain ⟨⟨last, after, hafterShort⟩, hsign, hafter⟩ := expectSign_complete α stop hclosing
      rw [items, hread, Items.asts]
      simp only [bind, Except.bind]
      split
      case h_1 => rcases hclose with rfl | rfl <;> cases hclosing
      case h_2 =>
        rw [hsign]
        exact ⟨_, rfl, by rw [Ast.allWithoutRanges, hast, Ast.allWithoutRanges], hafter⟩
  | .more item d, close, tokens, rest, hclose, h => by
      rw [Items.tokens, List.append_assoc, List.cons_append] at h
      obtain ⟨⟨ast, comma, hcommaShort⟩, hread, hast, hcomma⟩ :=
        expression_complete stop item h (closes_comma _)
      obtain ⟨_, after, rfl, hafter⟩ := kinds_eq_cons hcomma
      obtain ⟨all, hitems, hasts, hall⟩ := items_complete stop d hclose hafter
      rw [items, hread, Items.asts]
      simp only [bind, Except.bind, hitems]
      exact ⟨_, rfl, by rw [Ast.allWithoutRanges, hast, hasts], hall⟩
termination_by structural d => d

end

/-! ### Whole formulas -/

theorem whole_sound {stop : Nat} {tokens : List PlacedToken} {ast : Ast α}
    (h : whole stop tokens = .ok ast) :
    ∃ d : Expr, d.tokens = kinds tokens ∧ d.ast = ast.withoutRanges := by
  rw [whole] at h
  obtain ⟨⟨read, rest, hshort⟩, hread, h⟩ := exists_of_bind_eq_ok h
  obtain ⟨d, htokens, hast⟩ := expression_sound stop tokens _ hread
  cases rest with
  | nil =>
      cases h
      exact ⟨d, by rw [htokens, kinds_nil, List.append_nil], hast.symm⟩
  | cons t rest => cases h

theorem whole_complete (stop : Nat) {tokens : List PlacedToken} {d : Expr}
    (h : d.tokens = kinds tokens) :
    ∃ ast : Ast α, whole stop tokens = .ok ast ∧ ast.withoutRanges = d.ast := by
  obtain ⟨⟨ast, rest, hshort⟩, hread, hast, hrest⟩ :=
    expression_complete (α := α) stop d (h.symm.trans (List.append_nil _).symm) closes_nil
  obtain rfl : rest = [] := kinds_eq_nil hrest
  refine ⟨ast, ?_, hast⟩
  rw [whole, hread]
  rfl

/-- The reader of whole formulas accepts the grammar and nothing else: it returns a formula, its
ranges aside, if and only if a derivation of all tokens stands for it; tokens have one derivation
at most; and it refuses exactly the tokens that have none. -/
theorem whole_accepts_grammar :
    (∀ (stop : Nat) (tokens : List PlacedToken) (t : Ast α),
      (∃ ast, whole stop tokens = .ok ast ∧ ast.withoutRanges = t)
        ↔ ∃ d : Expr, d.tokens = tokens.map (·.token) ∧ d.ast = t)
      ∧ Function.Injective Expr.tokens
      ∧ ∀ (stop : Nat) (tokens : List PlacedToken),
        (∃ e, whole (α := α) stop tokens = .error e)
          ↔ ¬ ∃ d : Expr, d.tokens = tokens.map (·.token) := by
  refine ⟨fun stop tokens t => ⟨?_, ?_⟩, fun d d' h => ?_, fun stop tokens => ⟨?_, ?_⟩⟩
  · rintro ⟨ast, hread, rfl⟩
    exact whole_sound hread
  · rintro ⟨d, htokens, rfl⟩
    exact whole_complete stop htokens
  · refine (Expr.tokens_inj d d' closes_nil closes_nil ?_).1
    rw [List.append_nil, List.append_nil, h]
  · rintro ⟨e, herror⟩ ⟨d, htokens⟩
    obtain ⟨ast, hread, -⟩ := whole_complete (α := α) stop htokens
    rw [herror] at hread
    cases hread
  · intro hnone
    cases hread : whole (α := α) stop tokens with
    | error e => exact ⟨e, rfl⟩
    | ok ast =>
        obtain ⟨d, htokens, -⟩ := whole_sound hread
        exact absurd ⟨d, htokens⟩ hnone

end FormulaParser

end PatternMarkup
