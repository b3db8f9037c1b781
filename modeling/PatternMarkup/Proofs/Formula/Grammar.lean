import PatternMarkup.Formula.Parser
/-!
The grammar of formulas. A derivation is a tree of its own, with a node for every rule that is
used, parentheses among them; it has the tokens it derives and the formula these stand for. The
grammar is unambiguous: no two derivations derive the same tokens.
-/

namespace PatternMarkup

/-! ### Formulas without places -/

namespace Ast

variable {α : Type}

mutual

/-- The same formula with every range forgotten. -/
def withoutRanges : Ast α → Ast α
  | literal value _ => .literal value ⟨0, 0⟩
  | name n _ => .name n ⟨0, 0⟩
  | list items _ => .list (allWithoutRanges items) ⟨0, 0⟩
  | unary op operand _ => .unary op operand.withoutRanges ⟨0, 0⟩
  | binary op left right _ => .binary op left.withoutRanges right.withoutRanges ⟨0, 0⟩
  | conditional condition then_ else_ _ =>
      .conditional condition.withoutRanges then_.withoutRanges else_.withoutRanges ⟨0, 0⟩
  | call function arguments _ => .call function (allWithoutRanges arguments) ⟨0, 0⟩
  | member object m _ => .member object.withoutRanges m ⟨0, 0⟩
  | index object i _ => .index object.withoutRanges i.withoutRanges ⟨0, 0⟩
  | interpolation parts _ => .interpolation (allWithoutRanges parts) ⟨0, 0⟩

/-- The same formulas with every range forgotten. -/
def allWithoutRanges : List (Ast α) → List (Ast α)
  | [] => []
  | ast :: rest => ast.withoutRanges :: allWithoutRanges rest

end

theorem withoutRanges_withRange (r : ByteRange) (ast : Ast α) :
    (ast.withRange r).withoutRanges = ast.withoutRanges := by
  cases ast <;> rw [withRange, withoutRanges, withoutRanges]

theorem literal?_withoutRanges (ast : Ast α) : ast.withoutRanges.literal? = ast.literal? := by
  cases ast <;> rw [withoutRanges] <;> rfl

end Ast

namespace FormulaGrammar

/-! ### Rules -/

/-- The operators between operands, level by level; those of level one bind tightest. -/
inductive OperatorAt : Nat → Sign → BinaryOp → Prop
  | or : OperatorAt 6 .or .or
  | and : OperatorAt 5 .and .and
  | equals : OperatorAt 4 .equal .equals
  | notEquals : OperatorAt 4 .notEqual .notEquals
  | lessThan : OperatorAt 3 .less .lessThan
  | lessThanOrEqual : OperatorAt 3 .lessEqual .lessThanOrEqual
  | greaterThan : OperatorAt 3 .greater .greaterThan
  | greaterThanOrEqual : OperatorAt 3 .greaterEqual .greaterThanOrEqual
  | add : OperatorAt 2 .plus .add
  | subtract : OperatorAt 2 .minus .subtract
  | multiply : OperatorAt 1 .star .multiply
  | divide : OperatorAt 1 .slash .divide
  | modulo : OperatorAt 1 .percent .modulo

/-- The sign of an operator before its operand. -/
def signOf : UnaryOp → Sign
  | .negate => .minus
  | .not => .bang

mutual

/-- A formula: operands and operators, or a conditional, whose branches are formulas again. -/
inductive Expr : Type
  | plain (operation : Operation 6)
  | conditional (condition : Operation 6) (then_ else_ : Expr)

/-- Operands between operators of at most the given level. -/
inductive Operation : Nat → Type
  | operand (operand : Unary) : Operation 0
  | level {k : Nat} (first : Operation k) (rest : Tail k) : Operation (k + 1)

/-- Operators one level above `k`, each with the operand after it. -/
inductive Tail : Nat → Type
  | done {k : Nat} : Tail k
  | more {k : Nat} (sign : Sign) (op : BinaryOp) (stands : OperatorAt (k + 1) sign op)
      (right : Operation k) (rest : Tail k) : Tail k

/-- An operand with the signs before it. -/
inductive Unary : Type
  | signed (op : UnaryOp) (operand : Unary)
  | value (value : Postfix)

/-- A value with the members and indices after it. -/
inductive Postfix : Type
  | value (first : Primary) (rest : Suffixes)

/-- Members and indices. -/
inductive Suffixes : Type
  | done
  | member (name : String) (rest : Suffixes)
  | index (index : Expr) (rest : Suffixes)

/-- A value that is no operation. -/
inductive Primary : Type
  | number (written : List Char)
  | text (written : List Char)
  | truth (b : Bool)
  | name (name : String)
  | call (function : String) (arguments : Sequence)
  | group (inner : Expr)
  | list (items : Sequence)

/-- Formulas between commas, or none. -/
inductive Sequence : Type
  | none
  | some (items : Items)

/-- At least one formula, with a comma between any two. -/
inductive Items : Type
  | last (item : Expr)
  | more (item : Expr) (rest : Items)

end

/-! ### What a derivation derives -/

mutual

/-- The tokens of a formula. -/
def Expr.tokens : Expr → List FormulaToken
  | .plain operation => operation.tokens
  | .conditional condition then_ else_ =>
      condition.tokens ++ .sign .question :: (then_.tokens ++ .sign .colon :: else_.tokens)

/-- The tokens of operands and operators. -/
def Operation.tokens : {k : Nat} → Operation k → List FormulaToken
  | _, .operand operand => operand.tokens
  | _, .level first rest => first.tokens ++ rest.tokens

/-- The tokens of operators and the operands after them. -/
def Tail.tokens : {k : Nat} → Tail k → List FormulaToken
  | _, .done => []
  | _, .more sign _ _ right rest => .sign sign :: (right.tokens ++ rest.tokens)

/-- The tokens of an operand. -/
def Unary.tokens : Unary → List FormulaToken
  | .signed op operand => .sign (signOf op) :: operand.tokens
  | .value value => value.tokens

/-- The tokens of a value with members and indices. -/
def Postfix.tokens : Postfix → List FormulaToken
  | .value first rest => first.tokens ++ rest.tokens

/-- The tokens of members and indices. -/
def Suffixes.tokens : Suffixes → List FormulaToken
  | .done => []
  | .member name rest => .sign .dot :: .word name :: rest.tokens
  | .index index rest =>
      .sign .openBracket :: (index.tokens ++ .sign .closeBracket :: rest.tokens)

/-- The tokens of a value. -/
def Primary.tokens : Primary → List FormulaToken
  | .number written => [.number written]
  | .text written => [.text written]
  | .truth b => [.truth b]
  | .name name => [.word name]
  | .call function arguments =>
      .word function :: .sign .openParen :: (arguments.tokens ++ [.sign .closeParen])
  | .group inner => .sign .openParen :: (inner.tokens ++ [.sign .closeParen])
  | .list items => .sign .openBracket :: (items.tokens ++ [.sign .closeBracket])

/-- The tokens of a sequence. -/
def Sequence.tokens : Sequence → List FormulaToken
  | .none => []
  | .some items => items.tokens

/-- The tokens of the items of a sequence. -/
def Items.tokens : Items → List FormulaToken
  | .last item => item.tokens
  | .more item rest => item.tokens ++ .sign .comma :: rest.tokens

end

section Meaning

variable {α : Type} [Number α]

mutual

/-- The formula a derivation stands for. -/
def Expr.ast : Expr → Ast α
  | .plain operation => operation.ast
  | .conditional condition then_ else_ =>
      .conditional condition.ast then_.ast else_.ast ⟨0, 0⟩

/-- The formula of operands and operators. -/
def Operation.ast : {k : Nat} → Operation k → Ast α
  | _, .operand operand => operand.ast
  | _, .level first rest => rest.ast first.ast

/-- The formula of operators of one level after a left operand, grouped to the left. -/
def Tail.ast : {k : Nat} → Tail k → Ast α → Ast α
  | _, .done, left => left
  | _, .more _ op _ right rest, left => rest.ast (.binary op left right.ast ⟨0, 0⟩)

/-- The formula of an operand. -/
def Unary.ast : Unary → Ast α
  | .signed op operand => .unary op operand.ast ⟨0, 0⟩
  | .value value => value.ast

/-- The formula of a value with members and indices. -/
def Postfix.ast : Postfix → Ast α
  | .value first rest => rest.ast first.ast

/-- The formula of members and indices of an object. -/
def Suffixes.ast : Suffixes → Ast α → Ast α
  | .done, object => object
  | .member name rest, object => rest.ast (.member object name ⟨0, 0⟩)
  | .index index rest, object => rest.ast (.index object index.ast ⟨0, 0⟩)

/-- The formula of a value. -/
def Primary.ast : Primary → Ast α
  | .number written => .literal (FormulaParser.numberValue written) ⟨0, 0⟩
  | .text written => .literal (.string (String.ofList (unescape written))) ⟨0, 0⟩
  | .truth b => .literal (.bool b) ⟨0, 0⟩
  | .name name => .name name ⟨0, 0⟩
  | .call function arguments => .call function arguments.asts ⟨0, 0⟩
  | .group inner => inner.ast
  | .list items => .list items.asts ⟨0, 0⟩

/-- The formulas of a sequence. -/
def Sequence.asts : Sequence → List (Ast α)
  | .none => []
  | .some items => items.asts

/-- The formulas of the items of a sequence. -/
def Items.asts : Items → List (Ast α)
  | .last item => [item.ast]
  | .more item rest => item.ast :: rest.asts

end

end Meaning

/-! ### Where a phrase ends -/

theorem OperatorAt.level_eq {j k : Nat} {s : Sign} {op op' : BinaryOp} (h : OperatorAt j s op)
    (h' : OperatorAt k s op') : j = k ∧ op = op' := by
  cases h <;> cases h' <;> exact ⟨rfl, rfl⟩

/-- The tokens do not go on with an operator of level `k` or below, with a member, an index or
arguments: operands and operators of level `k` before them are complete. -/
def Ends (k : Nat) : List FormulaToken → Prop
  | .sign s :: _ =>
      s ≠ .dot ∧ s ≠ .openBracket ∧ s ≠ .openParen ∧ ∀ j ≤ k, ∀ op, ¬ OperatorAt j s op
  | _ => True

/-- Nor do they go on with the branches of a conditional: a formula before them is complete. -/
def Closes (tokens : List FormulaToken) : Prop :=
  Ends 6 tokens ∧ ∀ rest, tokens ≠ .sign .question :: rest

theorem Ends.mono {j k : Nat} {tokens : List FormulaToken} (hjk : j ≤ k) (h : Ends k tokens) :
    Ends j tokens := by
  unfold Ends at h ⊢
  split
  · exact ⟨h.1, h.2.1, h.2.2.1, fun i hi => h.2.2.2 i (Nat.le_trans hi hjk)⟩
  · trivial

theorem ends_operator {j k : Nat} {s : Sign} {op : BinaryOp} (h : OperatorAt k s op) (hjk : j < k)
    (rest : List FormulaToken) : Ends j (.sign s :: rest) := by
  refine ⟨?_, ?_, ?_, fun i hi op' h' => ?_⟩
  · rintro rfl
    cases h
  · rintro rfl
    cases h
  · rintro rfl
    cases h
  · obtain ⟨rfl, -⟩ := h.level_eq h'
    exact absurd hi (Nat.not_le_of_lt hjk)

/-- A closing sign, a comma and a colon close, as the end of a text does. -/
theorem closes_sign {s : Sign} (rest : List FormulaToken)
    (h : s = .closeParen ∨ s = .closeBracket ∨ s = .comma ∨ s = .colon) :
    Closes (.sign s :: rest) := by
  rcases h with rfl | rfl | rfl | rfl
  all_goals
    refine ⟨⟨by decide, by decide, by decide, fun j _ op h => ?_⟩, by simp⟩
    cases h

theorem closes_closeParen (rest : List FormulaToken) : Closes (.sign .closeParen :: rest) :=
  closes_sign rest (by simp)

theorem closes_closeBracket (rest : List FormulaToken) : Closes (.sign .closeBracket :: rest) :=
  closes_sign rest (by simp)

theorem closes_comma (rest : List FormulaToken) : Closes (.sign .comma :: rest) :=
  closes_sign rest (by simp)

theorem closes_colon (rest : List FormulaToken) : Closes (.sign .colon :: rest) :=
  closes_sign rest (by simp)

theorem closes_nil : Closes [] := ⟨trivial, by simp⟩

theorem ends_question (rest : List FormulaToken) : Ends 6 (.sign .question :: rest) := by
  refine ⟨by decide, by decide, by decide, fun j _ op h => ?_⟩
  cases h

theorem Tail.ends {k : Nat} (tail : Tail k) {rest : List FormulaToken} (h : Ends (k + 1) rest) :
    Ends k (tail.tokens ++ rest) := by
  cases tail with
  | done =>
      rw [tokens]
      exact h.mono (Nat.le_succ k)
  | more sign op stands right tail =>
      rw [tokens]
      exact ends_operator stands (Nat.lt_succ_self k) _

/-- What follows a value in a formula, members and indices first, is not the start of
arguments. -/
theorem Suffixes.head_ne (suffixes : Suffixes) {rest : List FormulaToken} (h : Ends 0 rest) :
    ∀ later, suffixes.tokens ++ rest ≠ .sign .openParen :: later := by
  cases suffixes with
  | done =>
      rw [tokens]
      rintro later rfl
      exact h.2.2.1 rfl
  | member name suffixes => simp [tokens]
  | index index suffixes => simp [tokens]

/-! ### How a phrase starts -/

/-- A value starts with this token. -/
def StartsValue : FormulaToken → Prop
  | .sign s => s = .openParen ∨ s = .openBracket
  | _ => True

/-- A formula starts with this token. -/
def Starts : FormulaToken → Prop
  | .sign s => s = .minus ∨ s = .bang ∨ s = .openParen ∨ s = .openBracket
  | _ => True

theorem StartsValue.starts {t : FormulaToken} (h : StartsValue t) : Starts t := by
  cases t with
  | sign s => exact .inr (.inr h)
  | _ => trivial

theorem Primary.starts (primary : Primary) :
    ∃ t rest, primary.tokens = t :: rest ∧ StartsValue t := by
  cases primary <;> rw [tokens] <;> refine ⟨_, _, rfl, ?_⟩
  case group => exact .inl rfl
  case list => exact .inr rfl
  all_goals trivial

theorem Postfix.starts (value : Postfix) :
    ∃ t rest, value.tokens = t :: rest ∧ StartsValue t := by
  obtain ⟨first, suffixes⟩ := value
  obtain ⟨t, rest, hfirst, ht⟩ := first.starts
  exact ⟨t, rest ++ suffixes.tokens, by rw [tokens, hfirst, List.cons_append], ht⟩

/-- No value starts with the sign of an operator before an operand. -/
theorem Postfix.tokens_ne_signed (value : Postfix) (op : UnaryOp)
    (rest later : List FormulaToken) : value.tokens ++ rest ≠ .sign (signOf op) :: later := by
  obtain ⟨t, more, hvalue, ht⟩ := value.starts
  rw [hvalue, List.cons_append]
  intro h
  rw [List.head_eq_of_cons_eq h] at ht
  cases op <;> simp [StartsValue, signOf] at ht

theorem Unary.starts (unary : Unary) : ∃ t rest, unary.tokens = t :: rest ∧ Starts t := by
  cases unary with
  | signed op operand =>
      refine ⟨_, _, by rw [tokens], ?_⟩
      cases op
      · exact .inl rfl
      · exact .inr (.inl rfl)
  | value value =>
      obtain ⟨t, rest, hvalue, ht⟩ := value.starts
      exact ⟨t, rest, by rw [tokens, hvalue], ht.starts⟩

theorem Operation.starts {k : Nat} (operation : Operation k) :
    ∃ t rest, operation.tokens = t :: rest ∧ Starts t := by
  induction k with
  | zero =>
      obtain ⟨operand⟩ := operation
      obtain ⟨t, rest, hoperand, ht⟩ := operand.starts
      exact ⟨t, rest, by rw [tokens, hoperand], ht⟩
  | succ k ih =>
      obtain _ | ⟨first, tail⟩ := operation
      obtain ⟨t, rest, hfirst, ht⟩ := ih first
      exact ⟨t, rest ++ tail.tokens, by rw [tokens, hfirst, List.cons_append], ht⟩

theorem Expr.starts (expr : Expr) : ∃ t rest, expr.tokens = t :: rest ∧ Starts t := by
  cases expr with
  | plain operation =>
      obtain ⟨t, rest, htokens, ht⟩ := operation.starts
      exact ⟨t, rest, by rw [tokens, htokens], ht⟩
  | conditional condition then_ else_ =>
      obtain ⟨t, rest, htokens, ht⟩ := condition.starts
      exact ⟨t, _, by rw [tokens, htokens, List.cons_append], ht⟩

theorem Items.starts (items : Items) : ∃ t rest, items.tokens = t :: rest ∧ Starts t := by
  cases items with
  | last item =>
      obtain ⟨t, rest, htokens, ht⟩ := item.starts
      exact ⟨t, rest, by rw [tokens, htokens], ht⟩
  | more item items =>
      obtain ⟨t, rest, htokens, ht⟩ := item.starts
      exact ⟨t, _, by rw [tokens, htokens, List.cons_append], ht⟩

/-! ### Derivations are unique -/

/-- A sequence ends with its closing sign, which is no comma and starts no formula. -/
def ClosesSequence (close : Sign) : Prop := close = .closeParen ∨ close = .closeBracket

theorem ClosesSequence.closes {close : Sign} (h : ClosesSequence close)
    (rest : List FormulaToken) : Closes (.sign close :: rest) :=
  closes_sign rest (h.elim .inl fun h => .inr (.inl h))

theorem ClosesSequence.not_starts {close : Sign} (h : ClosesSequence close) :
    ¬ Starts (.sign close) := by
  rcases h with rfl | rfl <;> simp [Starts]

/-- No formula starts with the sign that closes a sequence. -/
theorem Items.tokens_ne_close (items : Items) {close : Sign} (hclose : ClosesSequence close)
    (rest later : List FormulaToken) : items.tokens ++ rest ≠ .sign close :: later := by
  obtain ⟨t, more, hitems, ht⟩ := items.starts
  rw [hitems, List.cons_append]
  intro h
  rw [List.head_eq_of_cons_eq h] at ht
  exact hclose.not_starts ht

mutual

/-- The tokens of a formula determine its derivation, and where they end if others follow. The
induction is on the first derivation; what may follow a phrase tells the rules apart. -/
theorem Expr.tokens_inj : (d d' : Expr) → {rest rest' : List FormulaToken} → Closes rest →
    Closes rest' → d.tokens ++ rest = d'.tokens ++ rest' → d = d' ∧ rest = rest'
  | .plain o, .plain o', rest, rest', hrest, hrest', h => by
      rw [Expr.tokens, Expr.tokens] at h
      obtain ⟨rfl, rfl⟩ := Operation.tokens_inj o o' hrest.1 hrest'.1 h
      exact ⟨rfl, rfl⟩
  | .plain o, .conditional c _ _, rest, rest', hrest, hrest', h => by
      rw [Expr.tokens, Expr.tokens, List.append_assoc] at h
      obtain ⟨-, rfl⟩ := Operation.tokens_inj o c hrest.1 (ends_question _) h
      exact absurd rfl (hrest.2 _)
  | .conditional c _ _, .plain o, rest, rest', hrest, hrest', h => by
      rw [Expr.tokens, Expr.tokens, List.append_assoc] at h
      obtain ⟨-, rfl⟩ := Operation.tokens_inj c o (ends_question _) hrest'.1 h
      exact absurd rfl (hrest'.2 _)
  | .conditional c t e, .conditional c' t' e', rest, rest', hrest, hrest', h => by
      rw [Expr.tokens, Expr.tokens, List.append_assoc, List.append_assoc] at h
      simp only [List.cons_append, List.append_assoc] at h
      obtain ⟨rfl, hbranches⟩ := Operation.tokens_inj c c' (ends_question _) (ends_question _) h
      obtain ⟨rfl, helse⟩ := Expr.tokens_inj t t' (closes_colon _) (closes_colon _)
        (List.tail_eq_of_cons_eq hbranches)
      obtain ⟨rfl, rfl⟩ := Expr.tokens_inj e e' hrest hrest' (List.tail_eq_of_cons_eq helse)
      exact ⟨rfl, rfl⟩
termination_by structural d => d

theorem Operation.tokens_inj : {k : Nat} → (d d' : Operation k) →
    {rest rest' : List FormulaToken} → Ends k rest → Ends k rest' →
    d.tokens ++ rest = d'.tokens ++ rest' → d = d' ∧ rest = rest'
  | _, .operand u, .operand u', rest, rest', hrest, hrest', h => by
      rw [Operation.tokens, Operation.tokens] at h
      obtain ⟨rfl, rfl⟩ := Unary.tokens_inj u u' hrest hrest' h
      exact ⟨rfl, rfl⟩
  | _, .level first tail, .level first' tail', rest, rest', hrest, hrest', h => by
      rw [Operation.tokens, Operation.tokens, List.append_assoc, List.append_assoc] at h
      obtain ⟨rfl, htail⟩ :=
        Operation.tokens_inj first first' (tail.ends hrest) (tail'.ends hrest') h
      obtain ⟨rfl, rfl⟩ := Tail.tokens_inj tail tail' hrest hrest' htail
      exact ⟨rfl, rfl⟩
termination_by structural _ d => d

theorem Tail.tokens_inj : {k : Nat} → (d d' : Tail k) → {rest rest' : List FormulaToken} →
    Ends (k + 1) rest → Ends (k + 1) rest' →
    d.tokens ++ rest = d'.tokens ++ rest' → d = d' ∧ rest = rest'
  | _, .done, .done, rest, rest', hrest, hrest', h => by
      rw [Tail.tokens] at h
      exact ⟨rfl, h⟩
  | k, .done, .more _ op stands _ _, rest, rest', hrest, hrest', h => by
      rw [Tail.tokens, Tail.tokens, List.nil_append] at h
      subst h
      exact absurd stands (hrest.2.2.2 _ (Nat.le_refl _) op)
  | k, .more _ op stands _ _, .done, rest, rest', hrest, hrest', h => by
      rw [Tail.tokens, Tail.tokens, List.nil_append] at h
      subst h
      exact absurd stands (hrest'.2.2.2 _ (Nat.le_refl _) op)
  | _, .more s op stands right tail, .more s' op' stands' right' tail', rest, rest', hrest,
      hrest', h => by
      rw [Tail.tokens, Tail.tokens] at h
      simp only [List.cons_append, List.append_assoc, List.cons.injEq,
        FormulaToken.sign.injEq] at h
      obtain ⟨rfl, h⟩ := h
      obtain ⟨-, rfl⟩ := stands.level_eq stands'
      obtain ⟨rfl, htail⟩ :=
        Operation.tokens_inj right right' (tail.ends hrest) (tail'.ends hrest') h
      obtain ⟨rfl, rfl⟩ := Tail.tokens_inj tail tail' hrest hrest' htail
      exact ⟨rfl, rfl⟩
termination_by structural _ d => d

theorem Unary.tokens_inj : (d d' : Unary) → {rest rest' : List FormulaToken} → Ends 0 rest →
    Ends 0 rest' → d.tokens ++ rest = d'.tokens ++ rest' → d = d' ∧ rest = rest'
  | .signed op u, .signed op' u', rest, rest', hrest, hrest', h => by
      rw [Unary.tokens, Unary.tokens] at h
      simp only [List.cons_append, List.cons.injEq, FormulaToken.sign.injEq] at h
      obtain ⟨hop, h⟩ := h
      obtain rfl : op = op' := by cases op <;> cases op' <;> simp_all [signOf]
      obtain ⟨rfl, rfl⟩ := Unary.tokens_inj u u' hrest hrest' h
      exact ⟨rfl, rfl⟩
  | .signed op u, .value v, rest, rest', hrest, hrest', h => by
      rw [Unary.tokens, Unary.tokens] at h
      exact absurd h.symm (v.tokens_ne_signed op rest' _)
  | .value v, .signed op u, rest, rest', hrest, hrest', h => by
      rw [Unary.tokens, Unary.tokens] at h
      exact absurd h (v.tokens_ne_signed op rest _)
  | .value v, .value v', rest, rest', hrest, hrest', h => by
      rw [Unary.tokens, Unary.tokens] at h
      obtain ⟨rfl, rfl⟩ := Postfix.tokens_inj v v' hrest hrest' h
      exact ⟨rfl, rfl⟩
termination_by structural d => d

theorem Postfix.tokens_inj : (d d' : Postfix) → {rest rest' : List FormulaToken} → Ends 0 rest →
    Ends 0 rest' → d.tokens ++ rest = d'.tokens ++ rest' → d = d' ∧ rest = rest'
  | .value first suffixes, .value first' suffixes', rest, rest', hrest, hrest', h => by
      rw [Postfix.tokens, Postfix.tokens, List.append_assoc, List.append_assoc] at h
      obtain ⟨rfl, hsuffixes⟩ := Primary.tokens_inj first first' (suffixes.head_ne hrest)
        (suffixes'.head_ne hrest') h
      obtain ⟨rfl, rfl⟩ := Suffixes.tokens_inj suffixes suffixes' hrest hrest' hsuffixes
      exact ⟨rfl, rfl⟩
termination_by structural d => d

theorem Suffixes.tokens_inj : (d d' : Suffixes) → {rest rest' : List FormulaToken} →
    Ends 0 rest → Ends 0 rest' → d.tokens ++ rest = d'.tokens ++ rest' → d = d' ∧ rest = rest'
  | .done, .done, rest, rest', hrest, hrest', h => by
      rw [Suffixes.tokens] at h
      exact ⟨rfl, h⟩
  | .done, .member _ _, rest, rest', hrest, hrest', h => by
      rw [Suffixes.tokens, Suffixes.tokens, List.nil_append] at h
      subst h
      exact absurd rfl hrest.1
  | .done, .index _ _, rest, rest', hrest, hrest', h => by
      rw [Suffixes.tokens, Suffixes.tokens, List.nil_append] at h
      subst h
      exact absurd rfl hrest.2.1
  | .member _ _, .done, rest, rest', hrest, hrest', h => by
      rw [Suffixes.tokens, Suffixes.tokens, List.nil_append] at h
      subst h
      exact absurd rfl hrest'.1
  | .index _ _, .done, rest, rest', hrest, hrest', h => by
      rw [Suffixes.tokens, Suffixes.tokens, List.nil_append] at h
      subst h
      exact absurd rfl hrest'.2.1
  | .member n suffixes, .member n' suffixes', rest, rest', hrest, hrest', h => by
      rw [Suffixes.tokens, Suffixes.tokens] at h
      simp only [List.cons_append, List.cons.injEq, true_and, FormulaToken.word.injEq] at h
      obtain ⟨rfl, h⟩ := h
      obtain ⟨rfl, rfl⟩ := Suffixes.tokens_inj suffixes suffixes' hrest hrest' h
      exact ⟨rfl, rfl⟩
  | .member _ _, .index _ _, rest, rest', hrest, hrest', h => by
      rw [Suffixes.tokens, Suffixes.tokens] at h
      simp at h
  | .index _ _, .member _ _, rest, rest', hrest, hrest', h => by
      rw [Suffixes.tokens, Suffixes.tokens] at h
      simp at h
  | .index e suffixes, .index e' suffixes', rest, rest', hrest, hrest', h => by
      rw [Suffixes.tokens, Suffixes.tokens] at h
      simp only [List.cons_append, List.append_assoc, List.cons.injEq, true_and] at h
      obtain ⟨rfl, hclose⟩ :=
        Expr.tokens_inj e e' (closes_closeBracket _) (closes_closeBracket _) h
      obtain ⟨rfl, rfl⟩ :=
        Suffixes.tokens_inj suffixes suffixes' hrest hrest' (List.tail_eq_of_cons_eq hclose)
      exact ⟨rfl, rfl⟩
termination_by structural d => d

theorem Primary.tokens_inj : (d d' : Primary) → {rest rest' : List FormulaToken} →
    (∀ later, rest ≠ .sign .openParen :: later) →
    (∀ later, rest' ≠ .sign .openParen :: later) →
    d.tokens ++ rest = d'.tokens ++ rest' → d = d' ∧ rest = rest'
  | .call f a, .call f' a', rest, rest', hrest, hrest', h => by
      rw [Primary.tokens, Primary.tokens] at h
      simp only [List.cons_append, List.append_assoc, List.cons.injEq, true_and,
        FormulaToken.word.injEq] at h
      obtain ⟨rfl, h⟩ := h
      obtain ⟨rfl, rfl⟩ := Sequence.tokens_inj a a' (.inl rfl) h
      exact ⟨rfl, rfl⟩
  | .group e, .group e', rest, rest', hrest, hrest', h => by
      rw [Primary.tokens, Primary.tokens] at h
      simp only [List.cons_append, List.append_assoc, List.cons.injEq, true_and] at h
      obtain ⟨rfl, hclose⟩ := Expr.tokens_inj e e' (closes_closeParen _) (closes_closeParen _) h
      exact ⟨rfl, List.tail_eq_of_cons_eq hclose⟩
  | .list a, .list a', rest, rest', hrest, hrest', h => by
      rw [Primary.tokens, Primary.tokens] at h
      simp only [List.cons_append, List.append_assoc, List.cons.injEq, true_and] at h
      obtain ⟨rfl, rfl⟩ := Sequence.tokens_inj a a' (.inr rfl) h
      exact ⟨rfl, rfl⟩
  | .name n, .call f a, rest, rest', hrest, hrest', h => by
      rw [Primary.tokens, Primary.tokens] at h
      simp only [List.cons_append, List.nil_append, List.cons.injEq] at h
      exact absurd h.2 (hrest _)
  | .call f a, .name n, rest, rest', hrest, hrest', h => by
      rw [Primary.tokens, Primary.tokens] at h
      simp only [List.cons_append, List.nil_append, List.cons.injEq] at h
      exact absurd h.2.symm (hrest' _)
  | .number _, d', rest, rest', hrest, hrest', h => by
      cases d' <;> simp_all [Primary.tokens]
  | .text _, d', rest, rest', hrest, hrest', h => by
      cases d' <;> simp_all [Primary.tokens]
  | .truth _, d', rest, rest', hrest, hrest', h => by
      cases d' <;> simp_all [Primary.tokens]
  | .name _, .name _, rest, rest', hrest, hrest', h => by simp_all [Primary.tokens]
termination_by structural d => d

/-- The tokens of a sequence and its closing sign determine its derivation. -/
theorem Sequence.tokens_inj : (d d' : Sequence) → {close : Sign} →
    {rest rest' : List FormulaToken} → ClosesSequence close →
    d.tokens ++ .sign close :: rest = d'.tokens ++ .sign close :: rest' → d = d' ∧ rest = rest'
  | .none, .none, close, rest, rest', hclose, h => by
      rw [Sequence.tokens] at h
      exact ⟨rfl, by simpa using h⟩
  | .none, .some items, close, rest, rest', hclose, h => by
      rw [Sequence.tokens, Sequence.tokens] at h
      exact absurd h.symm (items.tokens_ne_close hclose _ rest)
  | .some items, .none, close, rest, rest', hclose, h => by
      rw [Sequence.tokens, Sequence.tokens] at h
      exact absurd h (items.tokens_ne_close hclose _ rest')
  | .some items, .some items', close, rest, rest', hclose, h => by
      rw [Sequence.tokens, Sequence.tokens] at h
      obtain ⟨rfl, rfl⟩ := Items.tokens_inj items items' hclose h
      exact ⟨rfl, rfl⟩
termination_by structural d => d

theorem Items.tokens_inj : (d d' : Items) → {close : Sign} →
    {rest rest' : List FormulaToken} → ClosesSequence close →
    d.tokens ++ .sign close :: rest = d'.tokens ++ .sign close :: rest' → d = d' ∧ rest = rest'
  | .last e, .last e', close, rest, rest', hclose, h => by
      rw [Items.tokens, Items.tokens] at h
      obtain ⟨rfl, h⟩ := Expr.tokens_inj e e' (hclose.closes _) (hclose.closes _) h
      exact ⟨rfl, by simpa using h⟩
  | .last e, .more e' _, close, rest, rest', hclose, h => by
      rw [Items.tokens, Items.tokens, List.append_assoc] at h
      obtain ⟨-, h⟩ := Expr.tokens_inj e e' (hclose.closes _) (closes_comma _) h
      rcases hclose with rfl | rfl <;> simp at h
  | .more e _, .last e', close, rest, rest', hclose, h => by
      rw [Items.tokens, Items.tokens, List.append_assoc] at h
      obtain ⟨-, h⟩ := Expr.tokens_inj e e' (closes_comma _) (hclose.closes _) h
      rcases hclose with rfl | rfl <;> simp at h
  | .more e items, .more e' items', close, rest, rest', hclose, h => by
      rw [Items.tokens, Items.tokens, List.append_assoc, List.append_assoc] at h
      obtain ⟨rfl, hcomma⟩ := Expr.tokens_inj e e' (closes_comma _) (closes_comma _) h
      obtain ⟨rfl, rfl⟩ :=
        Items.tokens_inj items items' hclose (List.tail_eq_of_cons_eq hcomma)
      exact ⟨rfl, rfl⟩
termination_by structural d => d

end

end FormulaGrammar

end PatternMarkup
