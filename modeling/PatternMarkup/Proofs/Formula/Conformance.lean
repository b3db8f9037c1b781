import PatternMarkup.Formula.Check
import PatternMarkup.Formula.Evaluate
/-!
Which values belong to a type, item by item and field by field, and which errors come from a value
of a wrong type. An operation on integers whose result does not fit 64 bits gives a number, so
membership is stated with a proposition `widened`, under which numbers belong to the integers as
well.
-/

namespace PatternMarkup

variable {α : Type}

/-! ### Types and their values -/

namespace ValueType

mutual

/-- Whether `any` occurs in a type. -/
def mentionsAny : ValueType → Bool
  | any => true
  | list item => item.mentionsAny
  | record fields => fieldsMentionAny fields
  | _ => false

/-- Whether `any` occurs in the type of a field. -/
def fieldsMentionAny : List (String × ValueType) → Bool
  | [] => false
  | (_, type) :: rest => type.mentionsAny || fieldsMentionAny rest

end

mutual

/-- The value belongs to the type, with everything in it. -/
def Admits (widened : Prop) : ValueType → Value α → Prop
  | scalar, v => (∃ x, v = .scalar x) ∨ ∃ n, v = .int n
  | int, v => (∃ n, v = .int n) ∨ widened ∧ ∃ x, v = .scalar x
  | bool, v => ∃ b, v = .bool b
  | string, v => ∃ s, v = .string s
  | color, v => ∃ c, v = .color c
  | transform, v => ∃ m, v = .transform m
  | rect, v => ∃ r, v = .rect r
  | size, v => ∃ s, v = .size s
  | point, v => ∃ p, v = .point p
  | margins, v => ∃ m, v = .margins m
  | path, v => ∃ s, v = .string s
  | enum _, v => ∃ s, v = .string s
  | list item, v => ∃ items, v = .list items ∧ ∀ w ∈ items, item.Admits widened w
  | record fields, v =>
      ∃ values, v = .record values ∧ fields.length = values.length ∧
        AdmitsFields widened fields values
  | any, _ => True

/-- Every field of a record type has a value that belongs to its type. -/
def AdmitsFields (widened : Prop) : List (String × ValueType) → List (String × Value α) → Prop
  | [], _ => True
  | (name, type) :: rest, values =>
      (∃ w, Fields.get? name values = some w ∧ type.Admits widened w) ∧
        AdmitsFields widened rest values

end

/-- The value belongs to the type, with everything in it; integers are integers. -/
def Conforms (type : ValueType) (v : Value α) : Prop := type.Admits False v

theorem mentionsAny_of_get? {name : String} {fields : List (String × ValueType)}
    {type : ValueType} (h : Fields.get? name fields = some type)
    (hfields : fieldsMentionAny fields = false) : type.mentionsAny = false := by
  induction fields with
  | nil => cases h
  | cons field rest ih =>
      obtain ⟨key, first⟩ := field
      rw [fieldsMentionAny, Bool.or_eq_false_iff] at hfields
      rw [Fields.get?] at h
      split at h
      · obtain rfl := Option.some.inj h
        exact hfields.1
      · exact ih h hfields.2

variable {widened : Prop}

theorem AdmitsFields.exists_of_get? {fields : List (String × ValueType)}
    {values : List (String × Value α)} (h : AdmitsFields widened fields values) {name : String}
    {type : ValueType} (hget : Fields.get? name fields = some type) :
    ∃ w, Fields.get? name values = some w ∧ type.Admits widened w := by
  induction fields with
  | nil => cases hget
  | cons field rest ih =>
      obtain ⟨key, first⟩ := field
      obtain ⟨hfirst, hrest⟩ := h
      rw [Fields.get?] at hget
      split at hget
      · rename_i heq
        obtain rfl := Option.some.inj hget
        obtain rfl := heq
        exact hfirst
      · exact ih hrest hget

/-! ### Equal types -/

attribute [local simp] same

theorem beq_int {type : ValueType} : (type == int) = true ↔ type = int := by
  cases type <;> simp [BEq.beq, same]

theorem beq_bool {type : ValueType} : (type == bool) = true ↔ type = bool := by
  cases type <;> simp [BEq.beq, same]

theorem beq_string {type : ValueType} : (type == string) = true ↔ type = string := by
  cases type <;> simp [BEq.beq, same]

theorem beq_any {type : ValueType} : (type == any) = true ↔ type = any := by
  cases type <;> simp [BEq.beq, same]

theorem isNumeric_iff {type : ValueType} (h : type.mentionsAny = false) :
    type.isNumeric = true ↔ type = scalar ∨ type = int := by
  cases type <;> simp_all [isNumeric, mentionsAny]

/-! ### Types that accept each other -/

mutual

/-- What belongs to a type belongs to every type that accepts it. -/
theorem admits_of_accepts (left : ValueType) {right : ValueType} {v : Value α}
    (h : left.accepts right = true) (hany : right.mentionsAny = false)
    (hv : right.Admits widened v) : left.Admits widened v := by
  cases left with
  | any => trivial
  | scalar =>
      cases right with
      | int =>
          rcases hv with ⟨n, rfl⟩ | ⟨_, x, rfl⟩
          · exact .inr ⟨n, rfl⟩
          · exact .inl ⟨x, rfl⟩
      | scalar => exact hv
      | any => cases hany
      | _ => cases h
  | list item =>
      cases right with
      | list found =>
          obtain ⟨items, rfl, hitems⟩ := hv
          exact ⟨items, rfl, fun w hw => admits_of_accepts item h hany (hitems w hw)⟩
      | any => cases hany
      | _ => cases h
  | record fields =>
      cases right with
      | record found =>
          obtain ⟨values, rfl, hlength, hvalues⟩ := hv
          rw [accepts, Bool.and_eq_true] at h
          rw [mentionsAny] at hany
          refine ⟨values, rfl, ?_, admitsFields_of_acceptsFields fields h.2 hany hvalues⟩
          exact (beq_iff_eq.mp h.1).trans hlength
      | any => cases hany
      | _ => cases h
  | _ =>
      -- Only equal types are left, and the types of text, whose values are the same.
      cases right with
      | any => cases hany
      | _ => first | exact hv | cases h

theorem admitsFields_of_acceptsFields (fields : List (String × ValueType))
    {found : List (String × ValueType)} {values : List (String × Value α)}
    (h : acceptsFields fields found = true) (hany : fieldsMentionAny found = false)
    (hv : AdmitsFields widened found values) : AdmitsFields widened fields values := by
  cases fields with
  | nil => trivial
  | cons field rest =>
      obtain ⟨name, type⟩ := field
      rw [acceptsFields, Bool.and_eq_true] at h
      obtain ⟨hfirst, hrest⟩ := h
      split at hfirst
      · rename_i other hother
        obtain ⟨w, hw, hadmits⟩ := hv.exists_of_get? hother
        refine ⟨⟨w, hw, ?_⟩, admitsFields_of_acceptsFields rest hrest hany hv⟩
        exact admits_of_accepts type hfirst (mentionsAny_of_get? hother hany) hadmits
      · cases hfirst

end

/-- Where two types meet in one, the values of both belong to it. -/
theorem admits_unify_left {left right : ValueType} {v : Value α}
    (hany : left.mentionsAny = false) (hv : left.Admits widened v) :
    (left.unify right).Admits widened v := by
  unfold unify
  split
  · exact hv
  · split
    · rename_i h
      exact admits_of_accepts right h hany hv
    · trivial

theorem admits_unify_right {left right : ValueType} {v : Value α}
    (hany : right.mentionsAny = false) (hv : right.Admits widened v) :
    (left.unify right).Admits widened v := by
  unfold unify
  split
  · rename_i h
    exact admits_of_accepts left h hany hv
  · split
    · exact hv
    · trivial

mutual

/-- The more operations may have widened integers, the more values belong to a type. -/
theorem Admits.mono {widened' : Prop} (himp : widened → widened') (type : ValueType)
    {v : Value α} (h : type.Admits widened v) : type.Admits widened' v := by
  cases type with
  | int =>
      rcases h with h | ⟨hwidened, h⟩
      · exact .inl h
      · exact .inr ⟨himp hwidened, h⟩
  | list item =>
      obtain ⟨items, rfl, hitems⟩ := h
      exact ⟨items, rfl, fun w hw => Admits.mono himp item (hitems w hw)⟩
  | record fields =>
      obtain ⟨values, rfl, hlength, hvalues⟩ := h
      exact ⟨values, rfl, hlength, AdmitsFields.mono himp fields hvalues⟩
  | _ => exact h

theorem AdmitsFields.mono {widened' : Prop} (himp : widened → widened')
    (fields : List (String × ValueType)) {values : List (String × Value α)}
    (h : AdmitsFields widened fields values) : AdmitsFields widened' fields values := by
  cases fields with
  | nil => trivial
  | cons field rest =>
      obtain ⟨⟨w, hw, hadmits⟩, hrest⟩ := h
      exact ⟨⟨w, hw, Admits.mono himp field.2 hadmits⟩, AdmitsFields.mono himp rest hrest⟩

end

theorem accepts_any (type : ValueType) : type.accepts any = true := by
  cases type <;> rfl

theorem get?_fieldTypes (name : String) (values : List (String × Value α)) :
    Fields.get? name (Value.fieldTypes values) = (Fields.get? name values).map Value.type := by
  induction values with
  | nil => rfl
  | cons value rest ih =>
      rw [Value.fieldTypes, Fields.get?, Fields.get?]
      split
      · rfl
      · exact ih

theorem length_fieldTypes (values : List (String × Value α)) :
    (Value.fieldTypes values).length = values.length := by
  induction values with
  | nil => rfl
  | cons value rest ih => rw [Value.fieldTypes, List.length_cons, List.length_cons, ih]

mutual

/-- A type accepts the type of every value that conforms to it. -/
theorem accepts_of_conforms (type : ValueType) {v : Value α} (h : type.Conforms v) :
    type.accepts v.type = true := by
  cases type with
  | any => cases v <;> rfl
  | scalar => rcases h with ⟨x, rfl⟩ | ⟨n, rfl⟩ <;> rfl
  | int =>
      rcases h with ⟨n, rfl⟩ | ⟨h, _⟩
      · rfl
      · exact h.elim
  | list item =>
      obtain ⟨items, rfl, hitems⟩ := h
      cases items with
      | nil => exact item.accepts_any
      | cons first rest => exact accepts_of_conforms item (hitems first List.mem_cons_self)
  | record fields =>
      obtain ⟨values, rfl, hlength, hvalues⟩ := h
      rw [Value.type, accepts, Bool.and_eq_true, length_fieldTypes, beq_iff_eq]
      exact ⟨hlength, acceptsFields_of_conforms fields hvalues⟩
  | _ =>
      obtain ⟨x, rfl⟩ := h
      rfl

theorem acceptsFields_of_conforms (fields : List (String × ValueType))
    {values : List (String × Value α)} (h : AdmitsFields False fields values) :
    acceptsFields fields (Value.fieldTypes values) = true := by
  cases fields with
  | nil => rfl
  | cons field rest =>
      obtain ⟨name, type⟩ := field
      obtain ⟨⟨w, hw, hadmits⟩, hrest⟩ := h
      rw [acceptsFields, get?_fieldTypes, hw, Bool.and_eq_true]
      exact ⟨accepts_of_conforms type hadmits, acceptsFields_of_conforms rest hrest⟩

end

end ValueType

/-! ### Outcomes -/

/-- The error does not come from a value of a wrong type. A refused conversion counts as such
unless `casts` holds. -/
def EvalError.Allowed (casts : Prop) : EvalError → Prop
  | invalidOperands .. => False
  | noSuchMember .. => False
  | badCast .. => casts
  | _ => True

/-- There is a result with a property, or an error that does not come from a wrong type. -/
def Delivers {β : Type} (casts : Prop) (p : β → Prop) : Except EvalError β → Prop
  | .ok x => p x
  | .error e => e.Allowed casts

theorem Delivers.of_ok {β : Type} {casts : Prop} {p : β → Prop} {r : Except EvalError β} {x : β}
    (h : Delivers casts p r) (hr : r = .ok x) : p x := by
  rw [hr] at h
  exact h

theorem Delivers.bind {β γ : Type} {casts : Prop} {p : β → Prop} {q : γ → Prop}
    {r : Except EvalError β} {f : β → Except EvalError γ} (h : Delivers casts p r)
    (hf : ∀ x, r = .ok x → p x → Delivers casts q (f x)) : Delivers casts q (r >>= f) := by
  cases r with
  | ok x => exact hf x rfl h
  | error e => exact h

theorem Delivers.mono {β : Type} {casts : Prop} {p q : β → Prop} {r : Except EvalError β}
    (hpq : ∀ x, p x → q x) (h : Delivers casts p r) : Delivers casts q r := by
  cases r with
  | ok x => exact hpq x h
  | error e => exact h

end PatternMarkup
