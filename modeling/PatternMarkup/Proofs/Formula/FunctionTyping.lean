import Mathlib.Data.List.Forall2
import PatternMarkup.Formula.Builtin
import PatternMarkup.Proofs.Formula.Conformance
/-!
What functions make of arguments that belong to the types their check has seen. Only `len` and
`int` can refuse an argument for its type: their check takes arguments of every type.
-/

namespace PatternMarkup

variable {α : Type} [Number α] {widened casts : Prop}

namespace Builtin

/-- The function has a value for every value of the type, or refuses it for its content only. -/
def isTotalOn (b : Builtin) (type : ValueType) : Bool :=
  match b, type with
  | len, .list _ => true
  | len, .string => true
  | len, .path => true
  | len, .enum _ => true
  | len, _ => false
  | int, .int => true
  | int, .bool => true
  | int, _ => false
  | _, _ => true

theorem delivers_number (b : Builtin) (v : Value α) :
    Delivers casts (fun _ => True) (b.number v) := by
  unfold number
  split <;> trivial

theorem delivers_numbers (b : Builtin) (values : List (Value α)) :
    Delivers casts (fun _ => True) (b.numbers values) := by
  induction values with
  | nil => trivial
  | cons v rest ih => exact (b.delivers_number v).bind fun x _ _ => ih.bind fun xs _ _ => trivial

theorem delivers_rangeOf (start stop : α) :
    Delivers casts ((ValueType.list .int).Admits widened) (rangeOf start stop) := by
  unfold rangeOf
  split
  · trivial
  · simp only
    split
    · trivial
    · refine ⟨_, rfl, fun w hw => ?_⟩
      obtain ⟨i, _, rfl⟩ := List.mem_map.mp hw
      exact .inl ⟨_, rfl⟩

/-- A function of numbers gives a value of its type or refuses the numbers. -/
theorem delivers_ofNumbers (b : Builtin) (types : List ValueType) (xs : List α) :
    Delivers casts ((b.returnType types).Admits widened) (b.ofNumbers xs) := by
  unfold ofNumbers
  split
  -- A number, a value of another type, a list of integers, a refusal, or by a condition one of
  -- them.
  all_goals first
    | exact .inl ⟨_, rfl⟩
    | exact ⟨_, rfl⟩
    | exact delivers_rangeOf _ _
    | trivial
    | split <;> first
      | exact .inl ⟨_, rfl⟩
      | exact ⟨_, rfl⟩
      | trivial

omit [Number α] in
theorem ints?_ne_none {values : List (Value α)} (h : ∀ v ∈ values, ∃ n, v = .int n) :
    ints? values ≠ none := by
  induction values with
  | nil => simp [ints?]
  | cons v rest ih =>
      obtain ⟨n, rfl⟩ := h v List.mem_cons_self
      have hrest := ih fun w hw => h w (List.mem_cons_of_mem _ hw)
      simpa [ints?] using hrest

/-- Values one by one belong to types. -/
abbrev AdmitsAll (widened : Prop) (types : List ValueType) (values : List (Value α)) : Prop :=
  List.Forall₂ (fun type v => type.Admits widened v) types values

omit [Number α] in
/-- Values whose types are all the integers are integers, unless some are widened. -/
theorem exists_ints_of_all {types : List ValueType} {values : List (Value α)}
    (hvalues : AdmitsAll widened types values) (hall : types.all (· == .int) = true)
    (hwidened : ¬ widened) : ∀ v ∈ values, ∃ n, v = .int n := by
  induction hvalues with
  | nil => simp
  | cons hfirst _ ih =>
      rw [List.all_cons, Bool.and_eq_true, ValueType.beq_int] at hall
      obtain ⟨rfl, hrest⟩ := hall
      intro v hv
      rcases List.mem_cons.mp hv with rfl | hv
      · exact hfirst.resolve_right fun h => hwidened h.1
      · exact ih hrest v hv

/-- The least, the greatest and the absolute value are integers for integers. -/
def extremeType (types : List ValueType) : ValueType :=
  if types.all (· == .int) then .int else .scalar

omit [Number α] in
theorem admits_extremeType_int (types : List ValueType) (n : Int64) :
    (extremeType types).Admits widened (.int n : Value α) := by
  unfold extremeType
  split
  · exact .inl ⟨n, rfl⟩
  · exact .inr ⟨n, rfl⟩

omit [Number α] in
theorem admits_extremeType_scalar {types : List ValueType} {values : List (Value α)}
    (hvalues : AdmitsAll widened types values) {x : α} (hno : ¬ ∀ v ∈ values, ∃ n, v = .int n) :
    (extremeType types).Admits widened (.scalar x : Value α) := by
  unfold extremeType
  split
  · rename_i hall
    by_cases hwidened : widened
    · exact .inr ⟨hwidened, x, rfl⟩
    · exact absurd (exists_ints_of_all hvalues hall hwidened) hno
  · exact .inl ⟨x, rfl⟩

theorem delivers_extreme (b : Builtin) (ofInts : Int64 → Int64 → Int64) (ofReals : α → α → α)
    {types : List ValueType} {values : List (Value α)} (hvalues : AdmitsAll widened types values) :
    Delivers casts ((extremeType types).Admits widened) (b.extreme ofInts ofReals values) := by
  unfold extreme
  split
  · exact admits_extremeType_int types 0
  · exact admits_extremeType_int types _
  · rename_i hints
    refine (b.delivers_numbers values).bind fun xs _ _ => ?_
    have hscalar := fun x : α => admits_extremeType_scalar hvalues (x := x)
      fun h => ints?_ne_none h hints
    split
    · exact hscalar _
    · exact hscalar _

omit [Number α] in
theorem delivers_lengthOf {type : ValueType} {v : Value α} (hv : type.Admits widened v)
    (hcasts : len.isTotalOn type = false → casts) :
    Delivers casts (ValueType.int.Admits widened) (lengthOf v) := by
  unfold lengthOf
  split
  · exact .inl ⟨_, rfl⟩
  · exact .inl ⟨_, rfl⟩
  · rename_i hlist hstring
    refine hcasts ?_
    cases type with
    | list => exact absurd hv.choose_spec.1 (hlist _)
    | string | path | enum => exact absurd hv.choose_spec (hstring _)
    | _ => rfl

theorem delivers_toInteger {type : ValueType} {v : Value α} (hv : type.Admits widened v)
    (hcasts : int.isTotalOn type = false ∨ widened → casts) :
    Delivers casts (ValueType.int.Admits widened) (toInteger v) := by
  have hcasts' : (∃ n, v = .int n) ∨ (∃ b, v = .bool b) ∨ casts := by
    cases type with
    | int => exact hv.imp id fun h => .inr (hcasts (.inr h.1))
    | bool => exact .inr (.inl hv)
    | _ => exact .inr (.inr (hcasts (.inl rfl)))
  rcases hcasts' with ⟨n, rfl⟩ | ⟨b, rfl⟩ | hcasts'
  · exact .inl ⟨_, rfl⟩
  · exact .inl ⟨_, rfl⟩
  · unfold toInteger
    split
    · exact .inl ⟨_, rfl⟩
    · split
      · exact .inl ⟨_, rfl⟩
      · exact hcasts'
    · exact .inl ⟨_, rfl⟩
    · split
      · exact .inl ⟨_, rfl⟩
      · exact hcasts'
    · exact hcasts'

theorem delivers_colorOf {type : ValueType} {v : Value α} (hv : type.Admits widened v)
    (htype : ValueType.string.accepts type = true) (hany : type.mentionsAny = false) :
    Delivers casts (ValueType.color.Admits widened) (colorOf v) := by
  obtain ⟨s, rfl⟩ := ValueType.admits_of_accepts .string htype hany hv
  simp only [colorOf]
  split
  · exact ⟨_, rfl⟩
  · trivial

omit [Number α] in
theorem exists_type_of_single {types : List ValueType} {v : Value α}
    (h : AdmitsAll widened types [v]) : ∃ type, types = [type] ∧ type.Admits widened v := by
  obtain ⟨type, rest, hv, hrest, rfl⟩ := List.forall₂_cons_right_iff.mp h
  cases hrest
  exact ⟨type, rfl, hv⟩

/-- A function other than `if` takes the arguments that its check lets pass. -/
theorem delivers_evaluate {b : Builtin} (hb : b ≠ choose) {types : List ValueType}
    {values : List (Value α)} (hvalues : AdmitsAll widened types values)
    (hhex : ∀ type, b = hex → types = [type] →
      ValueType.string.accepts type = true ∧ type.mentionsAny = false)
    (hcasts : ∀ type, types = [type] → b.isTotalOn type = false → casts)
    (hwidened : widened → casts) :
    Delivers casts ((b.returnType types).Admits widened) (b.evaluate values) := by
  unfold evaluate
  split
  · exact delivers_extreme _ _ _ hvalues
  · exact delivers_extreme _ _ _ hvalues
  · exact admits_extremeType_int types _
  · rename_i v hint
    have hno : ¬ ∀ w ∈ [v], ∃ n, w = .int n := fun h =>
      absurd (h v (List.mem_singleton_self v)) (not_exists.mpr hint)
    cases hv : abs.number v with
    | ok x => exact admits_extremeType_scalar hvalues hno
    | error e =>
        have hnumber : Delivers casts (fun _ => True) (abs.number v) := delivers_number abs v
        rw [hv] at hnumber
        exact hnumber
  · obtain ⟨type, rfl, hv⟩ := exists_type_of_single hvalues
    exact delivers_lengthOf hv (hcasts type rfl)
  · obtain ⟨type, rfl, hv⟩ := exists_type_of_single hvalues
    obtain ⟨htype, hany⟩ := hhex type rfl rfl
    exact delivers_colorOf hv htype hany
  · exact ⟨_, rfl⟩
  · obtain ⟨type, rfl, hv⟩ := exists_type_of_single hvalues
    exact delivers_toInteger hv fun h => h.elim (hcasts type rfl) hwidened
  · exact absurd rfl hb
  · exact (b.delivers_numbers values).bind fun xs _ _ => b.delivers_ofNumbers types xs

end Builtin

end PatternMarkup
