import PatternMarkup.Proofs.Formula.ErrorSources
import PatternMarkup.Proofs.Formula.Forms
import PatternMarkup.Proofs.Formula.FunctionTyping
/-!
The tables of the functions every formula knows tell the truth about their values: a result has the
type that the types of the arguments promise, and arguments of the number and the types asked for
are refused for nothing but what they are. Only `len` and `int` ask for any type and take some.
-/

namespace PatternMarkup

variable {α : Type}

/-! ### Types that accept themselves -/

namespace ValueType

mutual

/-- A type accepts itself if the fields of its records have names of their own. -/
theorem accepts_self (type : ValueType) (h : type.HasDistinctFields) :
    type.accepts type = true := by
  cases type with
  | list item => exact accepts_self item h
  | enum members => simp [accepts]
  | record fields =>
      have hfields : acceptsFields fields fields = true :=
        acceptsFields_of_get? fields h.2 fun name type hmem => Fields.get?_of_mem h.1 hmem
      rw [accepts, hfields, beq_self_eq_true, Bool.and_self]
  | _ => rfl

theorem acceptsFields_of_get? (fields : List (String × ValueType))
    (h : HaveDistinctFields fields) {others : List (String × ValueType)}
    (hget : ∀ name type, (name, type) ∈ fields → Fields.get? name others = some type) :
    acceptsFields fields others = true := by
  cases fields with
  | nil => rfl
  | cons field rest =>
      obtain ⟨name, type⟩ := field
      have hrest := acceptsFields_of_get? rest h.2 fun key other hmem =>
        hget key other (List.mem_cons_of_mem _ hmem)
      rw [acceptsFields, hget name type List.mem_cons_self, hrest, Bool.and_true]
      exact accepts_self type h.1

end

/-- Of two types, the one that fits both accepts the first. -/
theorem unify_accepts_left {left : ValueType} (right : ValueType)
    (h : left.accepts left = true) : (left.unify right).accepts left = true := by
  unfold unify
  split
  · exact h
  · split
    · assumption
    · rfl

theorem unify_accepts_right (left : ValueType) {right : ValueType}
    (h : right.accepts right = true) : (left.unify right).accepts right = true := by
  unfold unify
  split
  · assumption
  · split
    · exact h
    · rfl

end ValueType

namespace Value

theorem names_fieldTypes (values : List (String × Value α)) :
    (fieldTypes values).map (·.1) = values.map (·.1) := by
  induction values with
  | nil => rfl
  | cons value rest ih => rw [fieldTypes, List.map_cons, List.map_cons, ih]

mutual

/-- The fields of a value's type have names of their own if those of the value do. -/
theorem hasDistinctFields_type : (v : Value α) → v.FieldsDiffer → v.type.HasDistinctFields
  | list [], _ => trivial
  | list (item :: _), h => hasDistinctFields_type item h.1
  | record values, h =>
      ⟨(names_fieldTypes values).symm ▸ h.1, haveDistinctFields_fieldTypes values h.2⟩
  | scalar _, _ => trivial
  | int _, _ => trivial
  | bool _, _ => trivial
  | string _, _ => trivial
  | color _, _ => trivial
  | transform _, _ => trivial
  | rect _, _ => trivial
  | size _, _ => trivial
  | point _, _ => trivial
  | margins _, _ => trivial

theorem haveDistinctFields_fieldTypes : (values : List (String × Value α)) →
    FieldValuesDiffer values → ValueType.HaveDistinctFields (fieldTypes values)
  | [], _ => trivial
  | (_, v) :: rest, h => ⟨hasDistinctFields_type v h.1, haveDistinctFields_fieldTypes rest h.2⟩

end

theorem type_accepts_type {v : Value α} (h : v.FieldsDiffer) : v.type.accepts v.type = true :=
  v.type.accepts_self (hasDistinctFields_type v h)

end Value

/-! ### Results -/

namespace Builtin

variable [Number α]

omit [Number α] in
theorem extremeType_of_ints?_eq_none {arguments : List (Value α)} (h : ints? arguments = none) :
    extremeType (arguments.map Value.type) = .scalar := by
  have hall : (arguments.map Value.type).all (· == .int) = false := by
    induction arguments with
    | nil => cases h
    | cons v rest ih =>
        cases v with
        | int n =>
            have hrest : ints? rest = none := by simpa [ints?] using h
            rw [List.map_cons, List.all_cons, ih hrest, Bool.and_false]
        | list items => cases items <;> rfl
        | _ => rfl
  rw [extremeType, hall]
  rfl

theorem conforms_extreme {b : Builtin} {ofInts : Int64 → Int64 → Int64} {ofReals : α → α → α}
    {arguments : List (Value α)} {v : Value α}
    (h : b.extreme ofInts ofReals arguments = .ok v) :
    (extremeType (arguments.map Value.type)).Conforms v := by
  unfold extreme at h
  split at h
  · rw [← Except.ok.inj h]
    exact admits_extremeType_int _ 0
  · rw [← Except.ok.inj h]
    exact admits_extremeType_int _ _
  · rename_i hints
    obtain ⟨xs, -, h⟩ := FormulaParser.exists_of_bind_eq_ok h
    rw [extremeType_of_ints?_eq_none hints]
    split at h
    · exact .inl ⟨_, (Except.ok.inj h).symm⟩
    · exact .inl ⟨_, (Except.ok.inj h).symm⟩

theorem conforms_colorOf {v w : Value α} (h : colorOf v = .ok w) : ValueType.color.Conforms w := by
  unfold colorOf at h
  repeat' split at h
  all_goals cases h
  exact ⟨_, rfl⟩

/-- The result of a function other than `if` belongs to the type its arguments promise. -/
theorem conforms_evaluate {b : Builtin} (hb : b ≠ choose) {arguments : List (Value α)}
    (hcount : b.arity.accepts arguments.length = true) {v : Value α}
    (h : b.evaluate arguments = .ok v) :
    (b.returnType (arguments.map Value.type)).Conforms v := by
  have hevaluates := evaluates hcount
  rw [h] at hevaluates
  generalize hresult : (Except.ok v : Except EvalError (Value α)) = result at hevaluates
  cases hevaluates with
  | numbers b hnumbers arguments =>
      obtain ⟨xs, -, h⟩ := FormulaParser.exists_of_bind_eq_ok hresult.symm
      have hdelivers : Delivers True
          ((b.returnType (arguments.map Value.type)).Admits False) (b.ofNumbers xs) :=
        b.delivers_ofNumbers _ xs
      exact hdelivers.of_ok h
  | min arguments => exact conforms_extreme hresult.symm
  | max arguments => exact conforms_extreme hresult.symm
  | absOfInt n =>
      rw [Except.ok.inj hresult]
      exact admits_extremeType_int _ _
  | abs w hw =>
      have hnone : ints? [w] = none := by
        cases w with
        | int n => exact absurd rfl (hw n)
        | _ => rfl
      have hscalar : extremeType [w.type] = .scalar := extremeType_of_ints?_eq_none hnone
      change (extremeType [w.type]).Conforms v
      rw [hscalar]
      cases hx : Builtin.abs.number w with
      | ok x =>
          rw [hx] at hresult
          exact .inl ⟨_, Except.ok.inj hresult⟩
      | error e =>
          rw [hx] at hresult
          cases hresult
  | len w =>
      have hany : ValueType.any.Conforms w := trivial
      exact (delivers_lengthOf hany fun _ => trivial).of_ok hresult.symm
  | hex w => exact conforms_colorOf hresult.symm
  | str w => exact ⟨_, Except.ok.inj hresult⟩
  | int w =>
      have hany : ValueType.any.Conforms w := trivial
      exact (delivers_toInteger hany fun _ => trivial).of_ok hresult.symm
  | choose => exact absurd rfl hb

/-- The type that fits both of two values accepts that of the one a condition takes. -/
theorem accepts_choose {condition then_ else_ v : Value α} (hthen : then_.FieldsDiffer)
    (helse : else_.FieldsDiffer) (h : choose.evaluate [condition, then_, else_] = .ok v) :
    (then_.type.unify else_.type).accepts v.type = true := by
  cases condition with
  | bool taken =>
      obtain rfl : (if taken then then_ else else_) = v := Except.ok.inj h
      cases taken with
      | true => exact ValueType.unify_accepts_left _ (Value.type_accepts_type hthen)
      | false => exact ValueType.unify_accepts_right _ (Value.type_accepts_type helse)
  | _ => cases h

theorem accepts_call {b : Builtin} {arguments : List (Value α)}
    (hfields : ∀ w ∈ arguments, w.FieldsDiffer) {v : Value α} (h : b.call arguments = .ok v) :
    (b.returnType (arguments.map Value.type)).accepts v.type = true := by
  unfold call at h
  split at h
  · rename_i hcount
    by_cases hb : b = choose
    · subst hb
      match arguments, Arity.accepts_exactly.mp hcount with
      | [condition, then_, else_], _ =>
          exact accepts_choose (hfields then_ (by simp)) (hfields else_ (by simp)) h
    · exact ValueType.accepts_of_conforms _ (conforms_evaluate hb hcount h)
  · cases h

/-! ### Arguments of the types asked for -/

omit [Number α] in
theorem exists_bool_of_accepts {v : Value α} (h : ValueType.bool.accepts v.type = true) :
    ∃ b, v = .bool b := by
  cases v with
  | bool b => exact ⟨b, rfl⟩
  | list items => cases items <;> cases h
  | _ => cases h

omit [Number α] in
theorem exists_string_of_accepts {v : Value α} (h : ValueType.string.accepts v.type = true) :
    ∃ s, v = .string s := by
  cases v with
  | string s => exact ⟨s, rfl⟩
  | list items => cases items <;> cases h
  | _ => cases h

theorem number?_ne_none_of_accepts {v : Value α} (h : ValueType.scalar.accepts v.type = true) :
    v.number? ≠ none := by
  cases v with
  | scalar x => nofun
  | int n => nofun
  | list items => cases items <;> cases h
  | _ => cases h

theorem not_refusesKind {b : Builtin} {values : List (Value α)}
    (h : ∀ v ∈ values, ValueType.scalar.accepts v.type = true) {e : EvalError} :
    ¬ b.RefusesKind values e := by
  rintro ⟨v, hv, hnone, -⟩
  exact number?_ne_none_of_accepts (h v hv) hnone

/-- The values are of the types that the function asks for. -/
def TakesTypes (b : Builtin) (values : List (Value α)) : Prop :=
  ∀ i v, values[i]? = some v → (b.parameterType i).accepts v.type = true

omit [Number α] in
theorem TakesTypes.of_scalar {b : Builtin} (hb : ∀ i, b.parameterType i = .scalar)
    {values : List (Value α)} (h : b.TakesTypes values) :
    ∀ v ∈ values, ValueType.scalar.accepts v.type = true := by
  intro v hv
  obtain ⟨i, hi⟩ := List.mem_iff_getElem?.mp hv
  rw [← hb i]
  exact h i v hi

theorem refusesContent_colorOf (s : String) :
    FailsOnly hex.RefusesContent (colorOf (.string s : Value α)) := by
  unfold colorOf
  simp only
  split
  · exact failsOnly_ok _
  · refine failsOnly_error.mpr ⟨_, rfl, not_isNoNumber ?_⟩
    rw [String.append_assoc, String.toList_append]
    rfl

/-- Arguments of the right number and types are refused only for what they are. -/
theorem refusesContent_of_takesTypes {b : Builtin} (hlen : b ≠ len) (hint : b ≠ int)
    {arguments : List (Value α)} (hcount : b.arity.accepts arguments.length = true)
    (htypes : b.TakesTypes arguments) : FailsOnly b.RefusesContent (b.evaluate arguments) := by
  have hrefuse (hscalar : ∀ i, b.parameterType i = .scalar) {e : EvalError}
      (he : b.RefusesKind arguments e) : b.RefusesContent e :=
    absurd he (not_refusesKind (htypes.of_scalar hscalar))
  have hevaluates := evaluates hcount
  generalize b.evaluate arguments = result at hevaluates ⊢
  cases hevaluates with
  | numbers _ hb =>
      have hscalar : ∀ i, b.parameterType i = .scalar := by
        cases b <;> first
          | exact fun _ => rfl
          | cases hb
      have hnumbers := (b.failsOnly_numbers arguments).mono fun _ => hrefuse hscalar
      refine hnumbers.bind fun xs hxs => ?_
      rw [← length_numbers hxs] at hcount
      exact failsOnly_ofNumbers hb hcount
  | min => exact (failsOnly_extreme _ _ _ arguments).mono fun _ => hrefuse fun _ => rfl
  | max => exact (failsOnly_extreme _ _ _ arguments).mono fun _ => hrefuse fun _ => rfl
  | absOfInt n => exact failsOnly_ok _
  | abs v => exact ((failsOnly_number _ v).mono fun _ => hrefuse fun _ => rfl).map _
  | len v => exact absurd rfl hlen
  | hex v =>
      obtain ⟨s, rfl⟩ := exists_string_of_accepts (htypes 0 v rfl)
      exact refusesContent_colorOf s
  | str v => exact failsOnly_ok _
  | int v => exact absurd rfl hint
  | choose condition then_ else_ =>
      obtain ⟨taken, rfl⟩ := exists_bool_of_accepts (htypes 0 condition rfl)
      exact failsOnly_ok _

/-- The type that the types of the arguments promise accepts that of every result; and with as many
arguments as it takes, of types that its parameters accept, a function besides `len` and `int` does
not fail for their number, their types or its name. -/
theorem callNamed_keeps_tables :
    (∀ (name : String) (arguments : List (Value α)) (v : Value α),
      (∀ w ∈ arguments, w.FieldsDiffer) → callNamed name arguments = .ok v →
        (returnTypeNamed name (arguments.map Value.type)).accepts v.type = true) ∧
    ∀ (name : String) (b : Builtin) (arguments : List (Value α)) (e : EvalError),
      ofName? name = some b → b ≠ len → b ≠ int →
      b.arity.accepts arguments.length = true →
      (∀ i v, arguments[i]? = some v → (parameterTypeNamed name i).accepts v.type = true) →
      callNamed name arguments = .error e →
        (∀ function expected found, e ≠ .arity function expected found) ∧
        (∀ n, e ≠ .undefinedName n) ∧ (∀ source target, e ≠ .badCast source target) ∧
        ∀ function (type : ValueType),
          e ≠ .invalidArgument function ("expected a number, got " ++ type.text) := by
  constructor
  · intro name arguments v hfields h
    unfold callNamed at h
    cases hname : ofName? name with
    | some b =>
        rw [hname] at h
        rw [returnTypeNamed, hname]
        exact accepts_call hfields h
    | none =>
        rw [hname] at h
        cases h
  · intro name b arguments e hname hlen hint hcount htypes h
    have htypes : b.TakesTypes arguments := by
      intro i v hv
      simpa [parameterTypeNamed, hname] using htypes i v hv
    rw [callNamed, hname] at h
    simp only [call, if_pos hcount] at h
    obtain ⟨message, rfl, hmessage⟩ := refusesContent_of_takesTypes hlen hint hcount htypes e h
    refine ⟨nofun, nofun, nofun, fun function type heq => ?_⟩
    obtain ⟨-, rfl⟩ := EvalError.invalidArgument.inj heq
    exact hmessage ⟨type, rfl⟩

/-- `if` takes the first of two records, whose field is an integer where the other one's is a
number; `rotate` takes from one to three numbers and refuses two. -/
theorem callNamed_keeps_tables_records :
    let first : Value Float := .record [("a", .int 1)]
    let second : Value Float := .record [("a", .scalar 2.5)]
    let numbers : List (Value Float) := [.int 90, .scalar 0.5]
    (callNamed "if" [.bool true, first, second] = .ok first ∧
      (returnTypeNamed "if" [.bool, first.type, second.type]).accepts first.type = true) ∧
    ∃ e, callNamed "rotate" numbers = .error e ∧
      ∀ function (type : ValueType),
        e ≠ .invalidArgument function ("expected a number, got " ++ type.text) := by
  intro first second numbers
  have hif : callNamed "if" [.bool true, first, second] = .ok first := rfl
  have hfields : ∀ w ∈ [.bool true, first, second], w.FieldsDiffer := by
    simp [first, second, Value.FieldsDiffer, Value.FieldValuesDiffer]
  have hrotate : callNamed "rotate" numbers =
      .error (.invalidArgument "rotate" "expects an angle and an optional centre") := rfl
  have htypes : ∀ i v, numbers[i]? = some v →
      (parameterTypeNamed "rotate" i).accepts v.type = true := by
    intro i v hv
    rcases List.mem_pair.mp (List.mem_of_getElem? hv) with rfl | rfl <;> rfl
  obtain ⟨hreturns, htakes⟩ := callNamed_keeps_tables (α := Float)
  exact ⟨⟨hif, hreturns "if" _ first hfields hif⟩, _, hrotate,
    (htakes "rotate" rotate numbers _ rfl (by decide) (by decide) rfl htypes hrotate).2.2.2⟩

end Builtin

end PatternMarkup
