import Mathlib.Data.List.Forall2
import PatternMarkup.Formula.Evaluate
import PatternMarkup.Formula.Fold
/-!
Folding keeps the meaning of formulas. A subtree becomes a literal only where evaluation gives
that literal's value, whatever the names that are left stand for; errors and the operands that
evaluation passes by stay as they are.
-/

namespace PatternMarkup

variable {α : Type} [Number α]

/-- The surroundings give a name that is not hidden the meaning every formula knows: no function
stands in its place, and a constant has its value. -/
structure Environment.Knows (env : Environment α) (hidden : String → Bool) : Prop where
  function?_eq_none : ∀ n, hidden n = false → env.function? n = none
  read_constant : ∀ n, hidden n = false →
    ∀ v, Builtin.constant? n = some v → env.read n = .ok v

/-- What an operator makes of its left operand alone is what it makes of both, if it makes
anything of both. -/
theorem BinaryOp.eq_of_shortcut? {op : BinaryOp} {left right u v : Value α}
    (hshort : op.shortcut? left = some u) (happly : op.apply left right = .ok v) : u = v := by
  unfold shortcut? at hshort
  split at hshort
  · obtain rfl := Option.some.inj hshort
    cases right <;> simp_all [apply]
  · obtain rfl := Option.some.inj hshort
    cases right <;> simp_all [apply]
  · simp at hshort

/-- As a function, `if` takes one of two values by a condition. -/
theorem Builtin.call_choose (condition then_ else_ : Value α) :
    choose.call [condition, then_, else_] =
      condition.asCondition.map fun b => if b then then_ else else_ := by
  cases condition <;> rfl

namespace Ast

variable {env : Environment α}

/-! ### Literals -/

theorem evaluateWith_of_literal? {ast : Ast α} {v : Value α} (h : ast.literal? = some v) :
    ast.evaluateWith env = .ok v := by
  cases ast <;> simp_all [literal?, evaluateWith]

omit [Number α] in
theorem literals?_cons_eq_some {ast : Ast α} {rest : List (Ast α)} {values : List (Value α)} :
    literals? (ast :: rest) = some values ↔
      ∃ v vs, ast.literal? = some v ∧ literals? rest = some vs ∧ values = v :: vs := by
  simp only [literals?, Option.bind_eq_bind, Option.pure_def, Option.bind_eq_some_iff,
    Option.some.injEq]
  constructor
  · rintro ⟨v, hv, vs, hvs, rfl⟩
    exact ⟨v, vs, hv, hvs, rfl⟩
  · rintro ⟨v, vs, hv, hvs, rfl⟩
    exact ⟨v, hv, vs, hvs, rfl⟩

theorem evaluateAll_of_literals? {asts : List (Ast α)} {values : List (Value α)}
    (h : literals? asts = some values) : evaluateAll env asts = .ok values := by
  induction asts generalizing values with
  | nil =>
      obtain rfl := Option.some.inj h
      rw [evaluateAll]
  | cons ast rest ih =>
      obtain ⟨v, vs, hv, hvs, rfl⟩ := literals?_cons_eq_some.1 h
      rw [evaluateAll, evaluateWith_of_literal? hv, ih hvs]
      rfl

theorem evaluateText_of_literals? {asts : List (Ast α)} {values : List (Value α)}
    (h : literals? asts = some values) :
    evaluateText env asts = .ok (String.join (values.map Value.text)) := by
  induction asts generalizing values with
  | nil =>
      obtain rfl := Option.some.inj h
      rw [evaluateText]
      rfl
  | cons ast rest ih =>
      obtain ⟨v, vs, hv, hvs, rfl⟩ := literals?_cons_eq_some.1 h
      rw [evaluateText, evaluateWith_of_literal? hv, ih hvs]
      simp [bind, Except.bind, pure, Except.pure]

/-- A result may stand for a formula that evaluates to it. -/
theorem evaluateWith_literalOr {result : Except EvalError (Value α)} {otherwise : Ast α}
    (h : ∀ v, result = .ok v → otherwise.evaluateWith env = .ok v) :
    (literalOr result otherwise).evaluateWith env = otherwise.evaluateWith env := by
  cases result with
  | ok v => rw [literalOr, evaluateWith, h v rfl]
  | error e => rfl

theorem evaluateWith_foldOnLiterals {operands : List (Ast α)} {otherwise : Ast α}
    {operation : List (Value α) → Except EvalError (Value α)}
    (h : ∀ values, literals? operands = some values →
      ∀ v, operation values = .ok v → otherwise.evaluateWith env = .ok v) :
    (foldOnLiterals operands operation otherwise).evaluateWith env =
      otherwise.evaluateWith env := by
  unfold foldOnLiterals
  split
  · rename_i values hvalues
    exact evaluateWith_literalOr (h values hvalues)
  · rfl

/-! ### Each kind of formula -/

theorem evaluateWith_unary_of_literal? {op : UnaryOp} {operand : Ast α} {range : ByteRange}
    {v : Value α} (h : operand.literal? = some v) :
    (unary op operand range).evaluateWith env = op.apply v := by
  rw [evaluateWith, evaluateWith_of_literal? h]
  rfl

theorem evaluateWith_binary_of_literal? {op : BinaryOp} {left right : Ast α} {range : ByteRange}
    {v w u : Value α} (hleft : left.literal? = some v) (hright : right.literal? = some w)
    (happly : op.apply v w = .ok u) :
    (binary op left right range).evaluateWith env = .ok u := by
  rw [evaluateWith, evaluateWith_of_literal? hleft, evaluateWith_of_literal? hright]
  cases hshort : op.shortcut? v with
  | none => simpa [bind, Except.bind, hshort] using happly
  | some x =>
      obtain rfl := BinaryOp.eq_of_shortcut? hshort happly
      simp [bind, Except.bind, hshort, pure, Except.pure]

theorem evaluateWith_foldConditional (condition then_ else_ : Ast α) (range : ByteRange) :
    (foldConditional condition then_ else_ range).evaluateWith env =
      (conditional condition then_ else_ range).evaluateWith env := by
  unfold foldConditional
  split
  · rename_i c hcondition _ _
    rw [evaluateWith, evaluateWith_of_literal? hcondition]
    cases c <;> rfl
  · rfl

theorem evaluateWith_index_of_literal? {object i : Ast α} {range : ByteRange} {v w : Value α}
    (hobject : object.literal? = some v) (hi : i.literal? = some w) :
    (index object i range).evaluateWith env = v.item w := by
  rw [evaluateWith, evaluateWith_of_literal? hobject, evaluateWith_of_literal? hi]
  rfl

/-- `if` on literals gives what it gives as a function, if that is a value. -/
theorem evaluateChoice_of_literals? {arguments : List (Ast α)} {values : List (Value α)}
    {v : Value α} (h : literals? arguments = some values)
    (hcall : Builtin.choose.call values = .ok v) : evaluateChoice env arguments = .ok v := by
  unfold evaluateChoice
  split
  · rename_i condition then_ else_
    obtain ⟨c, _, hc, hthen, rfl⟩ := literals?_cons_eq_some.1 h
    obtain ⟨t, _, ht, helse, rfl⟩ := literals?_cons_eq_some.1 hthen
    obtain ⟨e, _, he, hnil, rfl⟩ := literals?_cons_eq_some.1 helse
    obtain rfl := Option.some.inj hnil
    rw [evaluateWith_of_literal? hc, evaluateWith_of_literal? ht, evaluateWith_of_literal? he]
    rw [Builtin.call_choose] at hcall
    simp only [bind, Except.bind]
    cases hb : c.asCondition with
    | ok b => cases b <;> simpa [hb, Except.map] using hcall
    | error e => simp [hb, Except.map] at hcall
  · rw [evaluateAll_of_literals? h]
    exact hcall

/-- A function of literals, called by a name that nothing hides, gives what it gives at
evaluation, if that is a value. -/
theorem evaluateWith_call_of_literals? {function : String} {arguments : List (Ast α)}
    {range : ByteRange} {values : List (Value α)} {v : Value α}
    (hfunction : env.function? function = none) (h : literals? arguments = some values)
    (hcall : Builtin.callNamed function values = .ok v) :
    (call function arguments range).evaluateWith env = .ok v := by
  rw [evaluateWith, hfunction]
  unfold Builtin.callNamed at hcall
  split at hcall
  · rename_i b hb
    rw [hb]
    cases b with
    | choose => exact evaluateChoice_of_literals? h hcall
    | _ =>
        simp only [evaluateAll_of_literals? h]
        exact hcall
  · simp at hcall

/-! ### Formulas of equal parts -/

/-- Two lists of formulas whose results in two surroundings agree one by one. -/
def SameResults (env env' : Environment α) : List (Ast α) → List (Ast α) → Prop :=
  List.Forall₂ fun first second => first.evaluateWith env = second.evaluateWith env'

section SameResults

variable {env' : Environment α} {first second : List (Ast α)}

theorem SameResults.evaluateAll_eq (h : SameResults env env' first second) :
    evaluateAll env first = evaluateAll env' second := by
  induction h with
  | nil => rw [evaluateAll, evaluateAll]
  | cons hhead _ ih => rw [evaluateAll, evaluateAll, hhead, ih]

theorem SameResults.evaluateText_eq (h : SameResults env env' first second) :
    evaluateText env first = evaluateText env' second := by
  induction h with
  | nil => rw [evaluateText, evaluateText]
  | cons hhead _ ih => rw [evaluateText, evaluateText, hhead, ih]

theorem SameResults.evaluateChoice_eq (h : SameResults env env' first second) :
    evaluateChoice env first = evaluateChoice env' second := by
  have hall := h.evaluateAll_eq
  rcases h with _ | ⟨hcondition, _ | ⟨hthen, _ | ⟨helse, _ | _⟩⟩⟩
  · simp only [evaluateChoice, hall]
  · simp only [evaluateChoice, hall]
  · simp only [evaluateChoice, hall]
  · simp only [evaluateChoice, hcondition, hthen, helse]
  · simp only [evaluateChoice, hall]

theorem SameResults.evaluateWith_call (h : SameResults env env' first second)
    {function : String} (hfunction : env.function? function = env'.function? function)
    (range : ByteRange) :
    (call function first range).evaluateWith env =
      (call function second range).evaluateWith env' := by
  rw [evaluateWith, evaluateWith, hfunction, h.length_eq, h.evaluateAll_eq, h.evaluateChoice_eq]

end SameResults

/-- Two lists of formulas whose values agree one by one. -/
def SameValues (env : Environment α) : List (Ast α) → List (Ast α) → Prop :=
  List.Forall₂ fun first second => first.evaluateWith env = second.evaluateWith env

theorem SameValues.sameResults {first second : List (Ast α)} (h : SameValues env first second) :
    SameResults env env first second := h

/-! ### Folding -/

mutual

/-- Folding a formula keeps its value and its error. The induction is on the formula; the parts
are folded first, and what is then made of literals is what evaluation makes of them. -/
theorem evaluateWith_foldWith {hidden : String → Bool} (henv : env.Knows hidden) :
    (ast : Ast α) → (ast.foldWith hidden).evaluateWith env = ast.evaluateWith env
  | literal value range => by rw [foldWith]
  | name n range => by
      rw [foldWith]
      split
      · rename_i value hvalue
        split at hvalue
        · simp at hvalue
        · rename_i hn
          rw [evaluateWith, evaluateWith,
            henv.read_constant n (Bool.eq_false_iff.2 hn) value hvalue]
      · rfl
  | list items range => by
      have hitems := (sameValues_foldAll henv items).sameResults
      rw [foldWith, evaluateWith_foldOnLiterals, evaluateWith, evaluateWith, hitems.evaluateAll_eq]
      intro values hvalues v hv
      rw [evaluateWith, evaluateAll_of_literals? hvalues]
      exact hv
  | unary op operand range => by
      have hoperand := evaluateWith_foldWith henv operand
      have hparts : (unary op (operand.foldWith hidden) range).evaluateWith env =
          (unary op operand range).evaluateWith env := by
        rw [evaluateWith, evaluateWith, hoperand]
      rw [foldWith, ← hparts]
      split
      · rename_i v hv
        apply evaluateWith_literalOr
        intro w hw
        rw [evaluateWith_unary_of_literal? hv, hw]
      · rfl
  | binary op left right range => by
      have hleft := evaluateWith_foldWith henv left
      have hright := evaluateWith_foldWith henv right
      have hparts : (binary op (left.foldWith hidden) (right.foldWith hidden) range).evaluateWith
          env = (binary op left right range).evaluateWith env := by
        rw [evaluateWith, evaluateWith, hleft, hright]
      rw [foldWith, ← hparts]
      split
      · rename_i v w hv hw
        apply evaluateWith_literalOr
        intro u hu
        exact evaluateWith_binary_of_literal? hv hw hu
      · rfl
  | conditional condition then_ else_ range => by
      rw [foldWith, evaluateWith_foldConditional, evaluateWith, evaluateWith,
        evaluateWith_foldWith henv condition, evaluateWith_foldWith henv then_,
        evaluateWith_foldWith henv else_]
  | call function arguments range => by
      have harguments := (sameValues_foldAll henv arguments).sameResults
      rw [foldWith, ← harguments.evaluateWith_call rfl range]
      split
      · rfl
      · rename_i hfunction
        apply evaluateWith_foldOnLiterals
        intro values hvalues v hv
        exact evaluateWith_call_of_literals?
          (henv.function?_eq_none function (Bool.eq_false_iff.2 hfunction)) hvalues hv
  | member object m range => by
      have hobject := evaluateWith_foldWith henv object
      have hparts : (member (object.foldWith hidden) m range).evaluateWith env =
          (member object m range).evaluateWith env := by
        rw [evaluateWith, evaluateWith, hobject]
      rw [foldWith, ← hparts]
      split
      · rename_i v hv
        apply evaluateWith_literalOr
        intro w hw
        rw [evaluateWith, evaluateWith_of_literal? hv]
        exact hw
      · rfl
  | index object i range => by
      have hobject := evaluateWith_foldWith henv object
      have hi := evaluateWith_foldWith henv i
      have hparts : (index (object.foldWith hidden) (i.foldWith hidden) range).evaluateWith env =
          (index object i range).evaluateWith env := by
        rw [evaluateWith, evaluateWith, hobject, hi]
      rw [foldWith, ← hparts]
      split
      · rename_i v w hv hw
        apply evaluateWith_literalOr
        intro u hu
        rw [evaluateWith_index_of_literal? hv hw, hu]
      · rfl
  | interpolation parts range => by
      have hparts := (sameValues_foldAll henv parts).sameResults
      rw [foldWith, evaluateWith_foldOnLiterals, evaluateWith, evaluateWith,
        hparts.evaluateText_eq]
      intro values hvalues v hv
      rw [evaluateWith, evaluateText_of_literals? hvalues]
      exact hv

theorem sameValues_foldAll {hidden : String → Bool} (henv : env.Knows hidden) :
    (asts : List (Ast α)) → SameValues env (foldAll hidden asts) asts
  | [] => .nil
  | ast :: rest => .cons (evaluateWith_foldWith henv ast) (sameValues_foldAll henv rest)

end

end Ast

namespace Scope

/-- A scope gives the names it does not shadow the meaning every formula knows. -/
theorem environment_knows_shadows (s : Scope α) : s.environment.Knows s.shadows where
  function?_eq_none n hn := by
    rw [shadows, Bool.or_eq_false_iff] at hn
    exact Option.isSome_eq_false_iff.1 hn.2 |> Option.isNone_iff_eq_none.1
  read_constant n hn v hv := by
    rw [shadows, Bool.or_eq_false_iff] at hn
    have hresolve : resolveIn n s.frames = none := by
      simpa [contains, lookup?] using hn.1
    change readName s.frames [] (formulaKeys s.frames) n = .ok v
    rw [readName, hresolve]
    simp only [hv]

end Scope

/-- A formula and the same formula folded in a scope have the same value there, or fail with the
same error. -/
theorem Ast.evaluate_fold (s : Scope α) (ast : Ast α) :
    (ast.fold s).evaluate s = ast.evaluate s :=
  evaluateWith_foldWith s.environment_knows_shadows ast

end PatternMarkup
