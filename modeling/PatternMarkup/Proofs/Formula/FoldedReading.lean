import Mathlib
import PatternMarkup.Formula.Literal
import PatternMarkup.Number.Double
import PatternMarkup.Proofs.Formula.Bracing
/-!
Whether a formula folds to a constant makes no difference to its reader. A constant is brought into
the form of its type when it is read and then converted, a formula is converted when it is
evaluated; both give the same results.
-/

namespace PatternMarkup

variable {α : Type} [Number α]

/-! ### Types of formulas -/

/-- The types of this library that are not written as text: braces around all of a literal hold a
formula. -/
inductive Typed.HoldsFormula (α : Type) [Number α] : (τ : Type) → Typed α τ → Prop
  | number : HoldsFormula α α inferInstance
  | int : HoldsFormula α Int64 inferInstance
  | bool : HoldsFormula α Bool inferInstance
  | color : HoldsFormula α (Color α) inferInstance
  | transform : HoldsFormula α (Transform α) inferInstance
  | rect : HoldsFormula α (Rect α) inferInstance
  | size : HoldsFormula α (Size α) inferInstance
  | point : HoldsFormula α (Point α) inferInstance
  | margins : HoldsFormula α (Margins α) inferInstance
  | value : HoldsFormula α (Value α) inferInstance
  | list {τ : Type} {typed : Typed α τ} (item : HoldsFormula α τ typed) :
      HoldsFormula α (List τ) inferInstance

/-- A value that is first brought into the form of a type gives what it gives at once. -/
def Typed.Agrees (α τ : Type) [Number α] [Typed α τ] : Prop :=
  ∀ (v : Value α) (x : τ),
    (v.coerce (valueType α τ) >>= ofValue) = .ok x ↔ (ofValue v : Except EvalError τ) = .ok x

theorem bind_eq_ok_iff {ε β γ : Type} {r : Except ε β} {f : β → Except ε γ} {c : γ} :
    (r >>= f) = .ok c ↔ ∃ b, r = .ok b ∧ f b = .ok c := by
  constructor
  · exact FormulaParser.exists_of_bind_eq_ok
  · rintro ⟨b, rfl, h⟩
    exact h

namespace Typed

variable {τ : Type} [Typed α τ]

/-- A type that takes values as they are. -/
theorem agrees_of_fit (hcoerce : ∀ v : Value α, v.coerce (valueType α τ) = v.fit (valueType α τ))
    (haccepts : ∀ (v : Value α) (x : τ), (ofValue v : Except EvalError τ) = .ok x →
      (valueType α τ).accepts v.type = true) : Agrees α τ := by
  intro v x
  rw [hcoerce, Value.fit]
  split
  · rfl
  · rename_i hno
    constructor
    · intro h
      cases h
    · intro h
      exact absurd (haccepts v x h) hno

theorem agrees_number : Agrees α α := by
  intro v x
  cases v with
  | list items => cases items <;> exact ⟨nofun, nofun⟩
  | scalar | int => rfl
  | _ => exact ⟨nofun, nofun⟩

theorem agrees_int : Agrees α Int64 := by
  intro v n
  cases v with
  | scalar x =>
      simp only [valueType, Value.coerce, ofValue]
      split
      · simp [bind, Except.bind]
      · constructor <;> intro h <;> cases h
  | list items => cases items <;> constructor <;> intro h <;> cases h
  | int => rfl
  | _ => constructor <;> intro h <;> cases h

theorem agrees_margins : Agrees α (Margins α) := by
  intro v m
  cases v with
  | list items => cases items <;> exact ⟨nofun, nofun⟩
  | scalar | int | margins => rfl
  | _ => exact ⟨nofun, nofun⟩

theorem agrees_items (hτ : Agrees α τ) (items : List (Value α)) (xs : List τ) :
    (Value.coerceItems (valueType α τ) items >>= List.mapM ofValue) = .ok xs ↔
      (items.mapM ofValue : Except EvalError (List τ)) = .ok xs := by
  induction items generalizing xs with
  | nil => rfl
  | cons item rest ih =>
      simp only [bind_eq_ok_iff] at ih
      rw [Value.coerceItems, List.mapM_cons]
      simp only [bind_eq_ok_iff]
      constructor
      · rintro ⟨_, ⟨w, hw, ws, hws, ⟨⟩⟩, hxs⟩
        rw [List.mapM_cons] at hxs
        obtain ⟨y, hy, hys⟩ := bind_eq_ok_iff.mp hxs
        obtain ⟨ys, hys, heq⟩ := bind_eq_ok_iff.mp hys
        exact ⟨y, (hτ item y).mp (bind_eq_ok_iff.mpr ⟨w, hw, hy⟩), ys, (ih ys).mp ⟨ws, hws, hys⟩, heq⟩
      · rintro ⟨y, hy, ys, hys, heq⟩
        obtain ⟨w, hw, hy⟩ := bind_eq_ok_iff.mp ((hτ item y).mpr hy)
        obtain ⟨ws, hws, hys⟩ := (ih ys).mpr hys
        refine ⟨w :: ws, ⟨w, hw, ws, hws, rfl⟩, ?_⟩
        rw [List.mapM_cons]
        exact bind_eq_ok_iff.mpr ⟨y, hy, bind_eq_ok_iff.mpr ⟨ys, hys, heq⟩⟩

theorem agrees_list (hτ : Agrees α τ) : Agrees α (List τ) := by
  intro v xs
  cases v with
  | list items =>
      have hitems := agrees_items hτ items xs
      simp only [valueType, Value.coerce]
      cases hcoerced : Value.coerceItems (valueType α τ) items with
      | ok ws =>
          rw [hcoerced] at hitems
          exact hitems
      | error e =>
          rw [hcoerced] at hitems
          exact hitems
  | _ => constructor <;> intro h <;> cases h

omit [Typed α τ] in
theorem HoldsFormula.agrees {typed : Typed α τ} (h : HoldsFormula α τ typed) : Agrees α τ := by
  induction h with
  | number => exact agrees_number
  | int => exact agrees_int
  | margins => exact agrees_margins
  | list item ih => exact agrees_list ih
  | value => exact agrees_of_fit (fun v => by cases v <;> rfl) fun v x h => by cases v <;> rfl
  | _ =>
      refine agrees_of_fit (fun v => by cases v <;> rfl) fun v x h => ?_
      cases v <;> first | rfl | cases h

omit [Typed α τ] in
theorem HoldsFormula.valueType_ne {typed : Typed α τ} (h : HoldsFormula α τ typed) :
    valueType α τ ≠ .string ∧ valueType α τ ≠ .path := by
  cases h <;> exact ⟨nofun, nofun⟩

end Typed

/-! ### Formulas between braces -/

theorem readTyped_of_braced? {context : LiteralContext α} {type : ValueType}
    {text inner : Fragment} (htype : type ≠ .string ∧ type ≠ .path)
    (h : text.braced? = some inner) :
    readTyped context type text =
      (Ast.readFolded context.scope inner >>= text.settle type) := by
  have hsettle : ∀ other, text.settleBraced context.scope type other =
      (Ast.readFolded context.scope inner >>= text.settle type) := by
    intro other
    rw [Fragment.settleBraced, h]
  unfold readTyped
  split
  · exact absurd rfl htype.1
  · exact absurd rfl htype.2
  · exact hsettle _
  · exact hsettle _
  · exact hsettle _

/-- What a formula between braces is read as: a constant of a type, if the folded formula is one
that the type takes, or the folded formula. -/
theorem readAs_bracedText_eq {τ : Type} [Typed α τ] (context : LiteralContext α)
    {text : String} {ast : Ast α} {base : Nat}
    (htype : Typed.valueType α τ ≠ .string ∧ Typed.valueType α τ ≠ .path)
    (hread : Ast.read (Fragment.ofString text base) = .ok ast) :
    ∃ folded : Ast α, folded.evaluate context.scope = ast.evaluate context.scope ∧
      ∃ error, (readAs context (Ast.bracedText text) : Except FormatError (Expression α τ)) =
        match folded.literal? with
        | none => .ok (.formula ⟨folded, Typed.valueType α τ⟩)
        | some v =>
            match (v.coerce (Typed.valueType α τ) >>= Typed.ofValue : Except EvalError τ) with
            | .ok x => .ok (.constant x)
            | .error _ => .error error := by
  have htext : Fragment.ofString (Ast.bracedText text) 0 = ⟨0, '{' :: (text.toList ++ ['}'])⟩ := by
    simp [Fragment.ofString, Ast.bracedText]
  obtain ⟨tokens, htokens, -⟩ : ∃ tokens, scanFormula base text.toList = .ok tokens ∧ _ :=
    FormulaParser.exists_of_bind_eq_ok hread
  have hbraced := braced?_of_closesAfter (closesAfter_of_scan htokens) 0
  obtain ⟨placed, hplaced, hranges⟩ := Ast.read_elsewhere hread (0 + 1)
  have hfolded : Ast.readFolded context.scope ⟨0 + 1, text.toList⟩ =
      .ok (placed.fold context.scope) := by
    rw [Ast.readFolded, hplaced]
    rfl
  refine ⟨placed.fold context.scope, ?_, ⟨.invalidLiteral (Typed.valueType α τ).text
    (Fragment.ofString (Ast.bracedText text) 0).trimmed.text,
    (Fragment.ofString (Ast.bracedText text) 0).range⟩, ?_⟩
  · rw [Ast.evaluate, Ast.fold, Ast.evaluateWith_foldWith context.scope.environment_knows_shadows]
    exact Ast.evaluate_of_withoutRanges_eq hranges context.scope
  · rw [readAs, htext, readTyped_of_braced? htype hbraced, hfolded]
    simp only [bind, Except.bind, Fragment.settle]
    cases (placed.fold context.scope).literal? with
    | none => rfl
    | some v =>
        simp only
        cases v.coerce (Typed.valueType α τ) with
        | error e => rfl
        | ok w =>
            simp only [Expression.cast]
            cases (Typed.ofValue w : Except EvalError τ) <;> rfl

/-- Folding cannot be observed. For every formula that is read from a text and every type whose
literals hold formulas between braces, the expression read from the text between braces has a value
exactly if the formula has one that the type takes, and then it is the same; and if there is no
such expression, the formula has no such value. -/
theorem readAs_bracedText {τ : Type} [typed : Typed α τ] (hτ : Typed.HoldsFormula α τ typed)
    (context : LiteralContext α) {text : String} {base : Nat} {ast : Ast α}
    (hread : Ast.read (Fragment.ofString text base) = .ok ast) :
    match (readAs context (Ast.bracedText text) : Except FormatError (Expression α τ)) with
    | .ok e => ∀ x, e.evaluate context.scope = .ok x ↔
        ∃ v, ast.evaluate context.scope = .ok v ∧ (Typed.ofValue v : Except EvalError τ) = .ok x
    | .error _ => ∀ v, ast.evaluate context.scope = .ok v →
        ∃ error, (Typed.ofValue v : Except EvalError τ) = .error error := by
  obtain ⟨folded, hvalue, error, heq⟩ :=
    readAs_bracedText_eq context hτ.valueType_ne hread
  rw [heq, ← hvalue]
  cases hliteral : folded.literal? with
  | none =>
      intro x
      rw [← bind_eq_ok_iff]
      rfl
  | some v =>
      have hv : folded.evaluate context.scope = .ok v := Ast.evaluateWith_of_literal? hliteral
      have hagrees := hτ.agrees v
      simp only [hv]
      cases hcoerced : (v.coerce (Typed.valueType α τ) >>= Typed.ofValue : Except EvalError τ) with
      | ok x =>
          have hx := (hagrees x).mp hcoerced
          intro y
          constructor
          · rintro ⟨⟩
            exact ⟨v, rfl, hx⟩
          · rintro ⟨_, ⟨⟩, hy⟩
            rw [hx] at hy
            cases hy
            rfl
      | error e =>
          rintro _ ⟨⟩
          cases hx : (Typed.ofValue v : Except EvalError τ) with
          | error e' => exact ⟨e', rfl⟩
          | ok x =>
              have hx := (hagrees x).mpr hx
              rw [hcoerced] at hx
              cases hx

theorem readAs_bracedText_integers :
    let context : LiteralContext Float := ⟨.empty, none⟩
    ∃ e : Expression Float (List Int64),
      readAs context (Ast.bracedText "[7, 2 * 3]") = .ok e ∧ e.evaluate .empty = .ok [7, 6] := by
  intro context
  let ast : Ast Float :=
    .list [.literal (.int 7) ⟨1, 2⟩,
      .binary .multiply (.literal (.int 2) ⟨4, 5⟩) (.literal (.int 3) ⟨8, 9⟩) ⟨4, 9⟩] ⟨0, 10⟩
  have hread : Ast.read (Fragment.ofString "[7, 2 * 3]" 0) = .ok ast := by cbv
  have hvalue : ast.evaluate .empty = .ok (.list [.int 7, .int 6]) := by
    simp only [ast, Ast.evaluate, Ast.evaluateWith, Ast.evaluateAll]
    rfl
  have hresult := readAs_bracedText (.list .int) context hread
  cases hreadAs : (readAs context (Ast.bracedText "[7, 2 * 3]") :
      Except FormatError (Expression Float (List Int64))) with
  | ok e =>
      rw [hreadAs] at hresult
      exact ⟨e, rfl, (hresult [7, 6]).mpr ⟨_, hvalue, rfl⟩⟩
  | error e =>
      rw [hreadAs] at hresult
      obtain ⟨error, hrefused⟩ := hresult _ hvalue
      cases hrefused

end PatternMarkup
