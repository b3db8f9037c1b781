import PatternMarkup.Proofs.Formula.ReadingRules
import PatternMarkup.Proofs.Formula.Subterms
import PatternMarkup.Proofs.Formula.TokenPlaces
/-!
Every formula in a formula that is read has tokens of its own. They are a run of the tokens read,
the formulas right inside it have runs of theirs, one after another, and the run on its own is
read as just that formula.
-/

namespace PatternMarkup

/-! ### Runs inside a run -/

/-- The runs stand in the tokens one after another, without overlap. -/
def HoldsInTurn : List (List PlacedToken) → List PlacedToken → Prop
  | [], _ => True
  | part :: later, tokens =>
      ∃ before after, tokens = before ++ (part ++ after) ∧ HoldsInTurn later after

namespace HoldsInTurn

variable {parts : List (List PlacedToken)} {tokens : List PlacedToken}

theorem append_left (h : HoldsInTurn parts tokens) (front : List PlacedToken) :
    HoldsInTurn parts (front ++ tokens) := by
  cases parts with
  | nil => trivial
  | cons part later =>
      obtain ⟨before, after, rfl, hlater⟩ := h
      exact ⟨front ++ before, after, (List.append_assoc _ _ _).symm, hlater⟩

theorem append_right (h : HoldsInTurn parts tokens) (back : List PlacedToken) :
    HoldsInTurn parts (tokens ++ back) := by
  induction parts generalizing tokens with
  | nil => trivial
  | cons part later ih =>
      obtain ⟨before, after, rfl, hlater⟩ := h
      exact ⟨before, after ++ back, by simp, ih hlater⟩

theorem infix_of_mem (h : HoldsInTurn parts tokens) {part : List PlacedToken}
    (hpart : part ∈ parts) : part <:+: tokens := by
  induction parts generalizing tokens with
  | nil => cases hpart
  | cons first later ih =>
      obtain ⟨before, after, rfl, hlater⟩ := h
      rcases List.mem_cons.mp hpart with rfl | hpart
      · exact ⟨before, after, List.append_assoc _ _ _⟩
      · obtain ⟨earlier, behind, hafter⟩ := ih hlater hpart
        exact ⟨before ++ (first ++ earlier), behind, by simp [← hafter]⟩

theorem pairwise (h : HoldsInTurn parts tokens) :
    parts.Pairwise fun part later => (part ++ later).Sublist tokens := by
  induction parts generalizing tokens with
  | nil => exact .nil
  | cons first later ih =>
      obtain ⟨before, after, rfl, hlater⟩ := h
      refine List.pairwise_cons.mpr ⟨fun part hpart => ?_, (ih hlater).imp fun hsub => ?_⟩
      · have hinside := (hlater.infix_of_mem hpart).sublist
        exact ((List.Sublist.refl first).append hinside).trans (List.sublist_append_right _ _)
      · exact hsub.trans
          ((List.sublist_append_right first after).trans (List.sublist_append_right _ _))

end HoldsInTurn

namespace FormulaParser

variable {α : Type} [Number α]

/-! ### Formulas with their runs -/

/-- The tokens are those of the formula: they span its bytes, are read as it wherever the text
ends, and hold the tokens of the formulas right inside it, one after another. -/
inductive Placed : List PlacedToken → Ast α → Prop
  | intro {tokens : List PlacedToken} {ast : Ast α} (parts : List (List PlacedToken × Ast α))
      (spans : Spans tokens ast.range)
      (reads : ∀ stop, Leaves (expression stop) tokens ast [])
      (children : parts.map Prod.snd = ast.children)
      (inTurn : HoldsInTurn (parts.map Prod.fst) tokens)
      (placed : ∀ part ∈ parts, Placed part.1 part.2) : Placed tokens ast

theorem Placed.spans {tokens : List PlacedToken} {ast : Ast α} (h : Placed tokens ast) :
    Spans tokens ast.range := by
  cases h
  assumption

/-- The formulas are placed in the tokens one after another. -/
def PlacedAll (tokens : List PlacedToken) (asts : List (Ast α)) : Prop :=
  ∃ parts : List (List PlacedToken × Ast α), parts.map Prod.snd = asts ∧
    HoldsInTurn (parts.map Prod.fst) tokens ∧ ∀ part ∈ parts, Placed part.1 part.2

namespace PlacedAll

variable {tokens part after : List PlacedToken} {ast : Ast α} {asts : List (Ast α)}

theorem nil (tokens : List PlacedToken) : PlacedAll tokens ([] : List (Ast α)) :=
  ⟨[], rfl, trivial, by simp⟩

theorem cons (hfirst : Placed part ast) (hlater : PlacedAll after asts) :
    PlacedAll (part ++ after) (ast :: asts) := by
  obtain ⟨parts, rfl, hturn, hplaced⟩ := hlater
  exact ⟨(part, ast) :: parts, rfl, ⟨[], after, rfl, hturn⟩,
    List.forall_mem_cons.mpr ⟨hfirst, hplaced⟩⟩

theorem append_left (h : PlacedAll tokens asts) (front : List PlacedToken) :
    PlacedAll (front ++ tokens) asts := by
  obtain ⟨parts, hasts, hturn, hplaced⟩ := h
  exact ⟨parts, hasts, hturn.append_left front, hplaced⟩

theorem append_right (h : PlacedAll tokens asts) (back : List PlacedToken) :
    PlacedAll (tokens ++ back) asts := by
  obtain ⟨parts, hasts, hturn, hplaced⟩ := h
  exact ⟨parts, hasts, hturn.append_right back, hplaced⟩

theorem single (h : Placed part ast) : PlacedAll part [ast] := by
  have hcons := cons h (nil [])
  rwa [List.append_nil] at hcons

end PlacedAll

theorem Placed.of_all {tokens : List PlacedToken} {ast : Ast α} (hspans : Spans tokens ast.range)
    (hreads : ∀ stop, Leaves (expression stop) tokens ast [])
    (hchildren : PlacedAll tokens ast.children) : Placed tokens ast := by
  obtain ⟨parts, hasts, hturn, hplaced⟩ := hchildren
  exact .intro parts hspans hreads hasts hturn hplaced

theorem Placed.all_children {tokens : List PlacedToken} {ast : Ast α} (h : Placed tokens ast) :
    PlacedAll tokens ast.children := by
  cases h with
  | intro parts _ _ children inTurn placed => exact ⟨parts, children, inTurn, placed⟩

/-! ### Runs read on their own -/

variable {stop k : Nat} {tokens : List PlacedToken} {ast : Ast α}

theorem leaves_raised {j : Nat} (hjk : j ≤ k) (h : Leaves (operation stop j) tokens ast []) :
    Leaves (operation stop k) tokens ast [] := by
  induction k, hjk using Nat.le_induction with
  | base => exact h
  | succ k hjk ih => exact leaves_level ih (leaves_operations_done (notNext_nil _))

theorem leaves_expression (hk : k ≤ BinaryOp.loosest)
    (h : Leaves (operation stop k) tokens ast []) : Leaves (expression stop) tokens ast [] :=
  leaves_plain (leaves_raised hk h) (notNext_nil _)

theorem leaves_unary (h : Leaves (unary stop) tokens ast []) :
    Leaves (expression stop) tokens ast [] :=
  leaves_expression (Nat.zero_le _) (leaves_operand h)

theorem leaves_primary {t : PlacedToken} (ht : unaryOperator? t = none)
    (h : Leaves (primary stop t) tokens ast []) : Leaves (expression stop) (t :: tokens) ast [] :=
  leaves_unary (leaves_value ht h (leaves_suffixes_done (notNext_nil _)))

/-! ### What a reader takes -/

/-- What reading returns and leaves, given where the text ends and the tokens. -/
abbrev Reading (α : Type) := Nat → List PlacedToken → Ast α → List PlacedToken → Prop

/-- A formula is read from the front of the tokens. It is placed in those taken and the ones
`before` them, and is read again when the text ends anywhere behind it. -/
def TakesOn (read : Reading α) (before tokens : List PlacedToken) (ast : Ast α)
    (rest : List PlacedToken) : Prop :=
  ∃ used, tokens = used ++ rest ∧ (∀ stop cut, cut <+: rest → read stop (used ++ cut) ast cut) ∧
    Placed (before ++ used) ast

/-- The same with no tokens before those taken. -/
def Takes (read : Reading α) (tokens : List PlacedToken) (ast : Ast α)
    (rest : List PlacedToken) : Prop :=
  ∃ used, tokens = used ++ rest ∧ (∀ stop cut, cut <+: rest → read stop (used ++ cut) ast cut) ∧
    Placed used ast

/-- Several formulas are read up to a closing sign, and read again when the text ends anywhere
behind it. -/
def TakesItems
    (read : Nat → List PlacedToken → List (Ast α) → Nat → List PlacedToken → Prop)
    (close : Sign) (tokens : List PlacedToken) (asts : List (Ast α)) (last : Nat)
    (rest : List PlacedToken) : Prop :=
  ∃ used range, tokens = used ++ ⟨.sign close, range⟩ :: rest ∧ last = range.stop ∧
    (∀ stop cut, cut <+: rest → read stop (used ++ ⟨.sign close, range⟩ :: cut) asts last cut) ∧
    PlacedAll used asts

/-- Reading on behind the tokens `before` is reading from their start. -/
def ReadsOn (whole more : Reading α) (before tokens : List PlacedToken) : Prop :=
  ∀ stop cut ast rest, cut <+: tokens → more stop cut ast rest → whole stop (before ++ cut) ast rest

variable {before piece between rest : List PlacedToken} {left right object : Ast α}
  {whole more further : Reading α}

omit [Number α] in
theorem ReadsOn.trans {all : List PlacedToken} (h : ReadsOn whole more before all)
    (hall : all = piece ++ tokens) (hstep : ReadsOn more further piece tokens) :
    ReadsOn whole further (before ++ piece) tokens := by
  subst hall
  intro stop cut ast rest hcut hread
  rw [List.append_assoc]
  exact h stop (piece ++ cut) ast rest (by simpa using hcut) (hstep stop cut ast rest hcut hread)

theorem TakesOn.of_readsOn {all : List PlacedToken}
    (h : TakesOn further (before ++ piece) tokens ast rest) (hall : all = piece ++ tokens)
    (hstep : ReadsOn more further piece tokens) : TakesOn more before all ast rest := by
  obtain ⟨used, rfl, hcuts, hplaced⟩ := h
  refine ⟨piece ++ used, by rw [hall, List.append_assoc], fun stop cut hcut => ?_, ?_⟩
  · rw [List.append_assoc]
    exact hstep stop (used ++ cut) ast cut (by simpa using hcut) (hcuts stop cut hcut)
  · rwa [← List.append_assoc]

theorem TakesOn.takes {all : List PlacedToken} (h : TakesOn more before tokens ast rest)
    (hall : all = before ++ tokens) (hon : ReadsOn whole more before tokens) :
    Takes whole all ast rest := by
  obtain ⟨used, rfl, hcuts, hplaced⟩ := h
  refine ⟨before ++ used, by rw [hall, List.append_assoc], fun stop cut hcut => ?_, hplaced⟩
  rw [List.append_assoc]
  exact hon stop (used ++ cut) ast cut (by simpa using hcut) (hcuts stop cut hcut)

theorem Takes.inTurn (h : Takes whole tokens ast rest) (hturn : InTurn tokens) : InTurn rest := by
  obtain ⟨used, rfl, -, -⟩ := h
  exact hturn.sublist (List.sublist_append_right used rest)

/-! ### Formulas and operators -/

theorem takes_plain
    (h : Takes (fun stop => Leaves (operation stop BinaryOp.loosest)) tokens ast rest)
    (hrest : NotNext (·.token = .sign .question) rest) :
    Takes (fun stop => Leaves (expression stop)) tokens ast rest := by
  obtain ⟨used, htokens, hcuts, hplaced⟩ := h
  exact ⟨used, htokens,
    fun stop cut hcut => leaves_plain (hcuts stop cut hcut) (hrest.of_cut hcut), hplaced⟩

theorem takes_conditional {condition then_ else_ : Ast α} {question colon : ByteRange}
    {branches last : List PlacedToken}
    (hcondition : Takes (fun stop => Leaves (operation stop BinaryOp.loosest)) tokens condition
      (⟨.sign .question, question⟩ :: branches))
    (hthen : Takes (fun stop => Leaves (expression stop)) branches then_
      (⟨.sign .colon, colon⟩ :: last))
    (helse : Takes (fun stop => Leaves (expression stop)) last else_ rest) :
    Takes (fun stop => Leaves (expression stop)) tokens
      (.conditional condition then_ else_ (condition.range.through else_.range)) rest := by
  obtain ⟨first, rfl, hfirst, hfirstPlaced⟩ := hcondition
  obtain ⟨second, rfl, hsecond, hsecondPlaced⟩ := hthen
  obtain ⟨third, rfl, hthird, hthirdPlaced⟩ := helse
  have hcuts : ∀ stop cut, cut <+: rest → Leaves (expression stop)
      (first ++ ⟨.sign .question, question⟩ :: (second ++ ⟨.sign .colon, colon⟩ :: (third ++ cut)))
      (.conditional condition then_ else_ (condition.range.through else_.range)) cut :=
    fun stop cut hcut => leaves_conditional (hfirst stop _ (by simp [hcut]))
      (hsecond stop _ (by simp [hcut])) (hthird stop cut hcut)
  refine ⟨first ++ ⟨.sign .question, question⟩ :: (second ++ ⟨.sign .colon, colon⟩ :: third),
    by simp, fun stop cut hcut => by simpa using hcuts stop cut hcut,
    .of_all ?_ (fun stop => by simpa using hcuts stop [] List.nil_prefix) ?_⟩
  · have hspans := hfirstPlaced.spans.through hthirdPlaced.spans
      (⟨.sign .question, question⟩ :: (second ++ [⟨.sign .colon, colon⟩]))
    simpa [Ast.range] using hspans
  · exact .cons hfirstPlaced ((PlacedAll.cons hsecondPlaced
      ((PlacedAll.single hthirdPlaced).append_left [_])).append_left [_])

theorem takes_operand (h : Takes (fun stop => Leaves (unary stop)) tokens ast rest) :
    Takes (fun stop => Leaves (operation stop 0)) tokens ast rest := by
  obtain ⟨used, htokens, hcuts, hplaced⟩ := h
  exact ⟨used, htokens, fun stop cut hcut => leaves_operand (hcuts stop cut hcut), hplaced⟩

theorem takesOn_operations_done (hleft : Placed before left)
    (hrest : NotNext (fun t => (operator? (k + 1) t).isSome) rest) :
    TakesOn (fun stop => Leaves (operations stop k left)) before rest left rest :=
  ⟨[], rfl, fun _ _ hcut => leaves_operations_done (hrest.of_cut hcut),
    by rwa [List.append_nil]⟩

/-- Two operands, the second one read as such, are the operands of an operator between them. -/
theorem placed_ofBinary {t : PlacedToken} {op : BinaryOp} (hk : k + 1 ≤ BinaryOp.loosest)
    (hturn : InTurn (before ++ t :: (piece ++ rest))) (hleft : Placed before left)
    (hright : Placed piece right)
    (hon : ReadsOn (fun stop => Leaves (operation stop (k + 1)))
      (fun stop => Leaves (operations stop k (.ofBinary op left right))) (before ++ t :: piece)
      rest) : Placed (before ++ t :: piece) (.ofBinary op left right) := by
  have hpair : InTurn (before ++ piece) := by
    refine hturn.sublist ((List.append_sublist_append_left before).mpr ?_)
    exact (List.sublist_append_left piece rest).cons t
  refine .of_all ?_ (fun stop => leaves_expression hk ?_) ?_
  · have hspans := hleft.spans.through hright.spans [t]
    rwa [← hleft.spans.union_eq hright.spans hpair] at hspans
  · have hread := hon stop [] _ [] List.nil_prefix (leaves_operations_done (notNext_nil _))
    rwa [List.append_nil] at hread
  · exact .cons hleft ((PlacedAll.single hright).append_left [t])

/-! ### Operands -/

theorem takes_signed {t : PlacedToken} {op : UnaryOp} (hop : unaryOperator? t = op)
    (h : Takes (fun stop => Leaves (unary stop)) tokens ast rest) :
    Takes (fun stop => Leaves (unary stop)) (t :: tokens)
      (.unary op ast (t.range.through ast.range)) rest := by
  obtain ⟨used, rfl, hcuts, hplaced⟩ := h
  refine ⟨t :: used, rfl, fun stop cut hcut => leaves_signed hop (hcuts stop cut hcut),
    .of_all ?_ (fun stop => leaves_unary (leaves_signed hop ?_)) ?_⟩
  · exact (Spans.singleton t).through hplaced.spans []
  · have hread := hcuts stop [] List.nil_prefix
    rwa [List.append_nil] at hread
  · exact (PlacedAll.single hplaced).append_left [t]

theorem takesOn_suffixes_done (hobject : Placed before object)
    (hrest : NotNext (fun t => t.token = .sign .dot ∨ t.token = .sign .openBracket) rest) :
    TakesOn (fun stop => Leaves (suffixes stop object)) before rest object rest :=
  ⟨[], rfl, fun _ _ hcut => leaves_suffixes_done (hrest.of_cut hcut),
    by rwa [List.append_nil]⟩

/-- What is read from an object on is a formula on its own where no more follows. -/
theorem leaves_of_readsOn
    (hon : ReadsOn (fun stop => Leaves (unary stop)) (fun stop => Leaves (suffixes stop object))
      before tokens) (stop : Nat) : Leaves (expression stop) before object [] := by
  have hread := hon stop [] object [] List.nil_prefix (leaves_suffixes_done (notNext_nil _))
  rw [List.append_nil] at hread
  exact leaves_unary hread

theorem placed_member {t : PlacedToken} {name : String} {range : ByteRange}
    (hobject : Placed before object)
    (hon : ReadsOn (fun stop => Leaves (unary stop))
      (fun stop => Leaves (suffixes stop (.member object name (object.range.through range))))
      (before ++ [t, ⟨.word name, range⟩]) tokens) :
    Placed (before ++ [t, ⟨.word name, range⟩])
      (.member object name (object.range.through range)) := by
  refine .of_all ?_ (leaves_of_readsOn hon) ((PlacedAll.single hobject).append_right _)
  exact hobject.spans.through (Spans.singleton ⟨.word name, range⟩) [t]

theorem placed_index {t close : PlacedToken} {index : Ast α} (hobject : Placed before object)
    (hindex : Placed piece index)
    (hon : ReadsOn (fun stop => Leaves (unary stop))
      (fun stop => Leaves (suffixes stop (.index object index (object.range.through close.range))))
      (before ++ t :: (piece ++ [close])) tokens) :
    Placed (before ++ t :: (piece ++ [close]))
      (.index object index (object.range.through close.range)) := by
  refine .of_all ?_ (leaves_of_readsOn hon) ?_
  · exact hobject.spans.through (Spans.singleton close) (t :: piece)
  · exact .cons hobject (((PlacedAll.single hindex).append_right [close]).append_left [t])

/-! ### Values -/

/-- A value that stops at its last token is a formula on its own. -/
theorem takesOn_primary {first : PlacedToken} (used : List PlacedToken)
    (hop : unaryOperator? first = none) (hall : tokens = used ++ rest)
    (hcuts : ∀ stop cut, cut <+: rest → Leaves (primary stop first) (used ++ cut) ast cut)
    (hspans : Spans (first :: used) ast.range) (hchildren : PlacedAll used ast.children) :
    TakesOn (fun stop => Leaves (primary stop first)) [first] tokens ast rest := by
  refine ⟨used, hall, hcuts, .of_all hspans (fun stop => leaves_primary hop ?_)
    (hchildren.append_left [first])⟩
  have hread := hcuts stop [] List.nil_prefix
  rwa [List.append_nil] at hread

/-! ### Formulas between commas -/

variable {close : Sign} {asts : List (Ast α)} {last : Nat}

theorem takesItems_none (range : ByteRange) :
    TakesItems (α := α) (fun stop => LeavesItems (sequence stop close)) close
      (⟨.sign close, range⟩ :: rest) [] range.stop rest :=
  ⟨[], range, rfl, rfl, fun _ _ _ => leaves_none range, .nil _⟩

theorem takesItems_some (hnext : NotNext (·.token = .sign close) tokens)
    (h : TakesItems (fun stop => LeavesItems (items stop close)) close tokens asts last rest) :
    TakesItems (fun stop => LeavesItems (sequence stop close)) close tokens asts last rest := by
  obtain ⟨used, range, rfl, hlast, hcuts, hplaced⟩ := h
  refine ⟨used, range, rfl, hlast, fun stop cut hcut => leaves_some ?_ (hcuts stop cut hcut),
    hplaced⟩
  cases used with
  | nil => exact absurd rfl (hnext _ rfl)
  | cons t used => exact hnext

theorem takesItems_last {range : ByteRange} (hclose : close ≠ .comma)
    (h : Takes (fun stop => Leaves (expression stop)) tokens ast (⟨.sign close, range⟩ :: rest)) :
    TakesItems (fun stop => LeavesItems (items stop close)) close tokens [ast] range.stop rest := by
  obtain ⟨used, rfl, hcuts, hplaced⟩ := h
  exact ⟨used, range, rfl, rfl,
    fun stop cut hcut => leaves_last hclose (hcuts stop _ (by simp [hcut])), .single hplaced⟩

theorem takesItems_more {comma : ByteRange}
    (hfirst : Takes (fun stop => Leaves (expression stop)) tokens ast
      (⟨.sign .comma, comma⟩ :: between))
    (hmore : TakesItems (fun stop => LeavesItems (items stop close)) close between asts last rest) :
    TakesItems (fun stop => LeavesItems (items stop close)) close tokens (ast :: asts) last
      rest := by
  obtain ⟨first, rfl, hfirst, hplaced⟩ := hfirst
  obtain ⟨used, range, rfl, rfl, hcuts, hall⟩ := hmore
  refine ⟨first ++ ⟨.sign .comma, comma⟩ :: used, range, by simp, rfl, fun stop cut hcut => ?_,
    .cons hplaced (hall.append_left [_])⟩
  have hread := leaves_more (hfirst stop (⟨.sign .comma, comma⟩ :: (used ++ _ :: cut))
    (by simp [hcut])) (hcuts stop cut hcut)
  simpa using hread

/-! ### Everything that is read is placed -/

mutual

/-- A formula that is read is placed in the tokens taken. The induction follows the reader. -/
theorem expression_takes (stop : Nat) (tokens : List PlacedToken) (hturn : InTurn tokens)
    (p : Parsed α tokens.length) (h : expression stop tokens = .ok p) :
    Takes (fun stop => Leaves (expression stop)) tokens p.ast p.rest := by
  rw [expression] at h
  obtain ⟨⟨ast, rest, hshort⟩, hcondition, h⟩ := exists_of_bind_eq_ok h
  have hfirst := operation_takes stop BinaryOp.loosest (Nat.le_refl _) tokens hturn _ hcondition
  split at h
  case h_1 _ range after hrest =>
    obtain rfl : rest = _ := hrest
    have hlen : after.length < tokens.length := Nat.lt_of_succ_lt hshort
    obtain ⟨then_, hthen, h⟩ := exists_of_bind_eq_ok h
    obtain ⟨colon, hcolon, h⟩ := exists_of_bind_eq_ok h
    obtain ⟨else_, helse, h⟩ := exists_of_bind_eq_ok h
    have := colon.shorter
    have := then_.shorter
    have hafter := hfirst.inTurn hturn
    have hsecond := expression_takes stop after hafter.tail then_ hthen
    obtain ⟨place, hplace, -⟩ := eq_cons_of_expectSign hcolon
    rw [hplace] at hsecond
    have hbehind := hsecond.inTurn hafter.tail
    have hthird := expression_takes stop colon.rest hbehind.tail else_ helse
    cases h
    exact takes_conditional hfirst hsecond hthird
  case h_2 hnone =>
    cases h
    exact takes_plain hfirst (notNext_of_ne hnone)
termination_by (tokens.length, BinaryOp.loosest + 3)

theorem operation_takes (stop k : Nat) (hk : k ≤ BinaryOp.loosest) (tokens : List PlacedToken)
    (hturn : InTurn tokens) (p : Parsed α tokens.length) (h : operation stop k tokens = .ok p) :
    Takes (fun stop => Leaves (operation stop k)) tokens p.ast p.rest := by
  cases k with
  | zero =>
      rw [operation] at h
      exact takes_operand (unary_takes stop tokens hturn p h)
  | succ k =>
      rw [operation] at h
      obtain ⟨first, hfirst, h⟩ := exists_of_bind_eq_ok h
      obtain ⟨all, hall, h⟩ := exists_of_bind_eq_ok h
      have := first.shorter
      obtain ⟨used, htokens, hcuts, hplaced⟩ :=
        operation_takes stop k (Nat.le_of_succ_le hk) tokens hturn first hfirst
      have hon : ReadsOn (fun stop => Leaves (operation stop (k + 1)))
          (fun stop => Leaves (operations stop k first.ast)) used first.rest :=
        fun stop cut _ _ hcut hread => leaves_level (hcuts stop cut hcut) hread
      have hmore := operations_takes stop k hk used first.ast hplaced first.rest
        (htokens ▸ hturn) hon all hall
      cases h
      exact hmore.takes htokens hon
termination_by (tokens.length, k + 2)

/-- Operators are read after a left operand that is placed in the tokens before them. -/
theorem operations_takes (stop k : Nat) (hk : k + 1 ≤ BinaryOp.loosest)
    (before : List PlacedToken) (left : Ast α) (hleft : Placed before left) :
    (tokens : List PlacedToken) → InTurn (before ++ tokens) →
    ReadsOn (fun stop => Leaves (operation stop (k + 1)))
      (fun stop => Leaves (operations stop k left)) before tokens →
    (p : Parsed α (tokens.length + 1)) → operations stop k left tokens = .ok p →
    TakesOn (fun stop => Leaves (operations stop k left)) before tokens p.ast p.rest
  | [], _, _, p, h => by
      rw [operations] at h
      cases h
      exact takesOn_operations_done hleft (notNext_nil _)
  | t :: rest, hturn, hon, p, h => by
      rw [operations] at h
      split at h
      case h_1 hnone =>
        cases h
        refine takesOn_operations_done hleft fun u hu hsome => ?_
        cases hu
        rw [hnone] at hsome
        cases hsome
      case h_2 op hop =>
        obtain ⟨right, hright, h⟩ := exists_of_bind_eq_ok h
        obtain ⟨all, hall, h⟩ := exists_of_bind_eq_ok h
        have := right.shorter
        have hrest : InTurn rest :=
          (hturn.sublist (List.sublist_append_right before (t :: rest))).tail
        obtain ⟨piece, hpiece, hcuts, hplaced⟩ :=
          operation_takes stop k (Nat.le_of_succ_le hk) rest hrest right hright
        have hstep : ReadsOn (fun stop => Leaves (operations stop k left))
            (fun stop => Leaves (operations stop k (.ofBinary op left right.ast))) (t :: piece)
            right.rest :=
          fun stop cut _ _ hcut hread => leaves_operations_more hop (hcuts stop cut hcut) hread
        have htokens : t :: rest = (t :: piece) ++ right.rest := by rw [List.cons_append, ← hpiece]
        have hfurther := hon.trans htokens hstep
        rw [htokens] at hturn
        have hbinary := placed_ofBinary hk hturn hleft hplaced hfurther
        rw [← List.append_assoc] at hturn
        have hmore := operations_takes stop k hk _ _ hbinary right.rest hturn hfurther all hall
        cases h
        exact hmore.of_readsOn htokens hstep
termination_by tokens => (tokens.length, 0)

theorem unary_takes (stop : Nat) : (tokens : List PlacedToken) → InTurn tokens →
    (p : Parsed α tokens.length) → unary stop tokens = .ok p →
    Takes (fun stop => Leaves (unary stop)) tokens p.ast p.rest
  | [], _, p, h => by
      rw [unary] at h
      cases h
  | t :: rest, hturn, p, h => by
      rw [unary] at h
      split at h
      case h_1 op hop =>
        obtain ⟨operand, hoperand, h⟩ := exists_of_bind_eq_ok h
        have htakes := unary_takes stop rest hturn.tail operand hoperand
        cases h
        exact takes_signed hop htakes
      case h_2 hop =>
        obtain ⟨first, hfirst, h⟩ := exists_of_bind_eq_ok h
        obtain ⟨all, hall, h⟩ := exists_of_bind_eq_ok h
        have := first.shorter
        obtain ⟨used, hrest, hcuts, hplaced⟩ := primary_takes stop t hop rest hturn first hfirst
        have hon : ReadsOn (fun stop => Leaves (unary stop))
            (fun stop => Leaves (suffixes stop first.ast)) (t :: used) first.rest :=
          fun stop cut _ _ hcut hread => leaves_value hop (hcuts stop cut hcut) hread
        have htokens : t :: rest = (t :: used) ++ first.rest := by rw [List.cons_append, ← hrest]
        have hmore := suffixes_takes stop (t :: used) first.ast hplaced first.rest
          (htokens ▸ hturn) hon all hall
        cases h
        exact hmore.takes htokens hon
termination_by tokens => (tokens.length, 1)

/-- Members and indices are read after an object that is placed in the tokens before them. -/
theorem suffixes_takes (stop : Nat) (before : List PlacedToken) (object : Ast α)
    (hobject : Placed before object) (tokens : List PlacedToken)
    (hturn : InTurn (before ++ tokens))
    (hon : ReadsOn (fun stop => Leaves (unary stop)) (fun stop => Leaves (suffixes stop object))
      before tokens)
    (p : Parsed α (tokens.length + 1)) (h : suffixes stop object tokens = .ok p) :
    TakesOn (fun stop => Leaves (suffixes stop object)) before tokens p.ast p.rest := by
  rw [suffixes.eq_def] at h
  split at h
  case h_1 dot name range rest =>
    obtain ⟨all, hall, h⟩ := exists_of_bind_eq_ok h
    have hstep : ReadsOn (fun stop => Leaves (suffixes stop object))
        (fun stop => Leaves (suffixes stop (.member object name (object.range.through range))))
        [⟨.sign .dot, dot⟩, ⟨.word name, range⟩] rest :=
      fun _ _ _ _ _ hread => leaves_member hread
    have hfurther := hon.trans rfl hstep
    have hmore := suffixes_takes stop _ _ (placed_member hobject hfurther) rest
      (by simpa using hturn) hfurther all hall
    cases h
    exact hmore.of_readsOn rfl hstep
  case h_2 => cases h
  case h_3 => cases h
  case h_4 opening rest =>
    obtain ⟨index, hindex, h⟩ := exists_of_bind_eq_ok h
    obtain ⟨close, hclose, h⟩ := exists_of_bind_eq_ok h
    -- The recursion is on what follows the bracket, which is less than what follows `[`.
    have : close.rest.length < rest.length + 1 :=
      Nat.lt_succ_of_lt (Nat.lt_trans close.shorter index.shorter)
    obtain ⟨all, hall, h⟩ := exists_of_bind_eq_ok h
    have hrest : InTurn rest := (hturn.sublist (List.sublist_append_right before _)).tail
    obtain ⟨piece, hpiece, hcuts, hplaced⟩ := expression_takes stop rest hrest index hindex
    obtain ⟨range, hrange, hstop⟩ := eq_cons_of_expectSign hclose
    rw [hrange] at hpiece hcuts
    rw [hstop] at hall
    let taken : List PlacedToken :=
      ⟨.sign .openBracket, opening⟩ :: (piece ++ [⟨.sign .closeBracket, range⟩])
    have hstep : ReadsOn (fun stop => Leaves (suffixes stop object))
        (fun stop => Leaves (suffixes stop
          (.index object index.ast (object.range.through range)))) taken close.rest := by
      intro stop cut _ _ hcut hread
      have hindexRead := hcuts stop (⟨.sign .closeBracket, range⟩ :: cut) (by simp [hcut])
      simpa [taken] using leaves_index hindexRead hread
    have htokens : ⟨.sign .openBracket, opening⟩ :: rest = taken ++ close.rest := by
      simp [taken, hpiece]
    have hfurther := hon.trans htokens hstep
    rw [htokens, ← List.append_assoc] at hturn
    have hmore := suffixes_takes stop _ _ (placed_index hobject hplaced hfurther) close.rest
      hturn hfurther all hall
    cases h
    exact hmore.of_readsOn htokens hstep
  case h_5 hdot hdotLast hdotOther hopen =>
    cases h
    refine takesOn_suffixes_done hobject fun t ht htoken => ?_
    obtain ⟨later, rfl⟩ := List.head?_eq_some_iff.mp ht
    obtain ⟨token, range⟩ := t
    rcases htoken with rfl | rfl
    · rcases later with _ | ⟨found, later⟩
      · exact hdotLast range rfl
      · exact hdotOther range found later rfl
    · exact hopen range later rfl
termination_by (tokens.length, 0)

/-- A value is placed in its first token and the tokens taken. -/
theorem primary_takes (stop : Nat) (first : PlacedToken) (hop : unaryOperator? first = none)
    (tokens : List PlacedToken) (hturn : InTurn (first :: tokens))
    (p : Parsed α (tokens.length + 1)) (h : primary stop first tokens = .ok p) :
    TakesOn (fun stop => Leaves (primary stop first)) [first] tokens p.ast p.rest := by
  obtain ⟨token, place⟩ := first
  rw [primary.eq_def] at h
  split at h
  case h_1 written hfirst =>
    cases h
    obtain rfl : token = _ := hfirst
    exact takesOn_primary [] hop rfl (fun _ _ _ => leaves_number) (.singleton _) (.nil [])
  case h_2 written hfirst =>
    cases h
    obtain rfl : token = _ := hfirst
    exact takesOn_primary [] hop rfl (fun _ _ _ => leaves_text) (.singleton _) (.nil [])
  case h_3 b hfirst =>
    cases h
    obtain rfl : token = _ := hfirst
    exact takesOn_primary [] hop rfl (fun _ _ _ => leaves_truth) (.singleton _) (.nil [])
  case h_4 name hfirst =>
    obtain rfl : token = _ := hfirst
    split at h
    case h_1 opening rest =>
      obtain ⟨arguments, harguments, h⟩ := exists_of_bind_eq_ok h
      obtain ⟨used, range, hused, hlast, hcuts, hplaced⟩ :=
        sequence_takes stop .closeParen (by decide) rest hturn.tail.tail arguments harguments
      cases h
      refine takesOn_primary
        (⟨.sign .openParen, opening⟩ :: (used ++ [⟨.sign .closeParen, range⟩])) hop
        (by simp [hused]) (fun stop cut hcut => ?_) ?_ ?_
      · simpa using leaves_call (hcuts stop cut hcut)
      · rw [hlast]
        exact (Spans.singleton _).through (Spans.singleton _) (⟨.sign .openParen, opening⟩ :: used)
      · exact (hplaced.append_right [_]).append_left [_]
    case h_2 hnone =>
      cases h
      exact takesOn_primary [] hop rfl
        (fun _ _ hcut => leaves_name ((notNext_of_ne hnone).of_cut hcut)) (.singleton _) (.nil [])
  case h_5 hfirst =>
    obtain rfl : token = _ := hfirst
    obtain ⟨inner, hinner, h⟩ := exists_of_bind_eq_ok h
    obtain ⟨close, hclose, h⟩ := exists_of_bind_eq_ok h
    obtain ⟨used, hused, hcuts, hplaced⟩ := expression_takes stop tokens hturn.tail inner hinner
    obtain ⟨range, hrange, hstop⟩ := eq_cons_of_expectSign hclose
    rw [hrange] at hused hcuts
    cases h
    rw [hstop]
    refine takesOn_primary (used ++ [⟨.sign .closeParen, range⟩]) hop (by simp [hused])
      (fun stop cut hcut => ?_) ?_ ?_
    · rw [List.append_assoc]
      exact leaves_group (hcuts stop (⟨.sign .closeParen, range⟩ :: cut) (by simp [hcut]))
    · rw [Ast.range_withRange]
      exact (Spans.singleton _).through (Spans.singleton _) used
    · rw [Ast.children_withRange]
      exact hplaced.all_children.append_right _
  case h_6 hfirst =>
    obtain rfl : token = _ := hfirst
    obtain ⟨items, hitems, h⟩ := exists_of_bind_eq_ok h
    obtain ⟨used, range, hused, hlast, hcuts, hplaced⟩ :=
      sequence_takes stop .closeBracket (by decide) tokens hturn.tail items hitems
    cases h
    refine takesOn_primary (used ++ [⟨.sign .closeBracket, range⟩]) hop (by simp [hused])
      (fun stop cut hcut => ?_) ?_ (hplaced.append_right _)
    · simpa using leaves_list (hcuts stop cut hcut)
    · rw [hlast]
      exact (Spans.singleton _).through (Spans.singleton _) used
  case h_7 => cases h
termination_by (tokens.length, BinaryOp.loosest + 6)

/-- Formulas up to a closing sign are placed in the tokens before it. -/
theorem sequence_takes (stop : Nat) (close : Sign) (hclose : close ≠ .comma) :
    (tokens : List PlacedToken) → InTurn tokens → (p : ParsedItems α tokens.length) →
    sequence stop close tokens = .ok p →
    TakesItems (fun stop => LeavesItems (sequence stop close)) close tokens p.items p.stop p.rest
  | [], hturn, p, h => by
      rw [sequence] at h
      exact takesItems_some (notNext_nil _) (items_takes stop close hclose [] hturn p h)
  | t :: rest, hturn, p, h => by
      rw [sequence] at h
      split at h
      case isTrue ht =>
        cases h
        obtain ⟨token, range⟩ := t
        obtain rfl : token = _ := ht
        exact takesItems_none range
      case isFalse ht =>
        have hitems := items_takes stop close hclose (t :: rest) hturn p h
        refine takesItems_some (fun u hu => ?_) hitems
        obtain rfl := Option.some.inj hu
        exact ht
termination_by tokens => (tokens.length, BinaryOp.loosest + 5)

theorem items_takes (stop : Nat) (close : Sign) (hclose : close ≠ .comma)
    (tokens : List PlacedToken) (hturn : InTurn tokens) (p : ParsedItems α tokens.length)
    (h : items stop close tokens = .ok p) :
    TakesItems (fun stop => LeavesItems (items stop close)) close tokens p.items p.stop p.rest := by
  rw [items] at h
  obtain ⟨⟨ast, rest, hshort⟩, hfirst, h⟩ := exists_of_bind_eq_ok h
  have htakes := expression_takes stop tokens hturn _ hfirst
  split at h
  case h_1 _ range after hrest =>
    obtain rfl : rest = _ := hrest
    have hlen : after.length < tokens.length := Nat.lt_of_succ_lt hshort
    obtain ⟨more, hmore, h⟩ := exists_of_bind_eq_ok h
    have hall := items_takes stop close hclose after (htakes.inTurn hturn).tail more hmore
    cases h
    exact takesItems_more htakes hall
  case h_2 =>
    obtain ⟨closed, hclosed, h⟩ := exists_of_bind_eq_ok h
    obtain ⟨range, hrange, hstop⟩ := eq_cons_of_expectSign hclosed
    cases h
    rw [hstop]
    refine takesItems_last hclose ?_
    rwa [← hrange]
termination_by (tokens.length, BinaryOp.loosest + 4)

end

end FormulaParser

end PatternMarkup
