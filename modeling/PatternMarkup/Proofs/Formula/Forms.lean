import PatternMarkup.Number.Double
import PatternMarkup.Proofs.Formula.Coercion
/-!
The form of a value. Bringing a value into the form of a type gives a value in that form, which the
type accepts and which stays as it is; and a value that is in the form already stays as it is. The
form goes through lists and records, where the type of a value tells no more than that of the first
item.
-/

namespace PatternMarkup

variable {α : Type}

namespace Value

open ValueType (HasDistinctFields HaveDistinctFields AdmitsFields)

/-! ### Forms -/

/-- The value has the form that the type asks for, with everything in it: numbers of the kind, a
text among the names, items of the type of items, and as many fields, each of its own type. -/
inductive HasForm : ValueType → Value α → Prop
  | scalar (x : α) : HasForm .scalar (scalar x)
  | int (n : Int64) : HasForm .int (int n)
  | bool (b : Bool) : HasForm .bool (bool b)
  | string (s : String) : HasForm .string (string s)
  | color (c : Color α) : HasForm .color (color c)
  | transform (m : Transform α) : HasForm .transform (transform m)
  | rect (r : Rect α) : HasForm .rect (rect r)
  | size (s : Size α) : HasForm .size (size s)
  | point (p : Point α) : HasForm .point (point p)
  | margins (m : Margins α) : HasForm .margins (margins m)
  | path (s : String) : HasForm .path (string s)
  | enum {members : List String} {s : String} (h : s ∈ members) :
      HasForm (.enum members) (string s)
  | list {type : ValueType} {items : List (Value α)} (h : ∀ w ∈ items, HasForm type w) :
      HasForm (.list type) (list items)
  | record {fields : List (String × ValueType)} {values : List (String × Value α)}
      (names : (values.map (·.1)).Perm (fields.map (·.1)))
      (h : ∀ name type w, (name, type) ∈ fields → (name, w) ∈ values → HasForm type w) :
      HasForm (.record fields) (record values)
  | any (v : Value α) : HasForm .any v

mutual

/-- The fields of every record in the value have names of their own. -/
def FieldsDiffer : Value α → Prop
  | list items => AllFieldsDiffer items
  | record values => (values.map (·.1)).Nodup ∧ FieldValuesDiffer values
  | _ => True

/-- The same for several values. -/
def AllFieldsDiffer : List (Value α) → Prop
  | [] => True
  | v :: rest => v.FieldsDiffer ∧ AllFieldsDiffer rest

/-- The same for the values of fields. -/
def FieldValuesDiffer : List (String × Value α) → Prop
  | [] => True
  | (_, v) :: rest => v.FieldsDiffer ∧ FieldValuesDiffer rest

end

theorem hasDistinctFields_of_get? {fields : List (String × ValueType)} {name : String}
    {type : ValueType} (h : HaveDistinctFields fields)
    (hget : Fields.get? name fields = some type) : type.HasDistinctFields := by
  induction fields with
  | nil => cases hget
  | cons field rest ih =>
      obtain ⟨key, first⟩ := field
      rw [Fields.get?] at hget
      split at hget
      · obtain rfl := Option.some.inj hget
        exact h.1
      · exact ih h.2 hget

/-! ### Types of values in a form -/

theorem admitsFields_of_forall {fields : List (String × ValueType)}
    {values : List (String × Value α)}
    (h : ∀ name type, (name, type) ∈ fields →
      ∃ w, Fields.get? name values = some w ∧ type.Admits False w) :
    AdmitsFields False fields values := by
  induction fields with
  | nil => trivial
  | cons field rest ih =>
      refine ⟨h field.1 field.2 List.mem_cons_self, ih ?_⟩
      intro name type hmem
      exact h name type (List.mem_cons_of_mem field hmem)

/-- A value in the form of a type belongs to it. The induction is on the form. -/
theorem HasForm.conforms {type : ValueType} {v : Value α} (h : HasForm type v)
    (htype : type.HasDistinctFields) : type.Conforms v := by
  induction h with
  | any v => trivial
  | scalar x => exact .inl ⟨x, rfl⟩
  | int n => exact .inl ⟨n, rfl⟩
  | enum _ => exact ⟨_, rfl⟩
  | list _ ih => exact ⟨_, rfl, fun w hw => ih w hw htype⟩
  | @record fields values names _ ih =>
      have hnames : (values.map (·.1)).Nodup := names.nodup_iff.mpr htype.1
      have hlength := names.length_eq
      rw [List.length_map, List.length_map] at hlength
      refine ⟨values, rfl, hlength.symm, admitsFields_of_forall ?_⟩
      intro name type hfield
      have hname : name ∈ values.map (·.1) := names.mem_iff.mpr (List.mem_map_of_mem hfield)
      obtain ⟨⟨key, w⟩, hvalue, rfl⟩ := List.mem_map.mp hname
      have htype' := hasDistinctFields_of_get? htype.2 (Fields.get?_of_mem htype.1 hfield)
      exact ⟨w, Fields.get?_of_mem hnames hvalue, ih key type w hfield hvalue htype'⟩
  | _ => exact ⟨_, rfl⟩

variable [Number α]

/-! ### Values that stay as they are -/

theorem coerceItems_of_forall {type : ValueType} {items : List (Value α)}
    (h : ∀ w ∈ items, w.coerce type = .ok w) : coerceItems type items = .ok items := by
  induction items with
  | nil => rfl
  | cons first rest ih =>
      have hrest : ∀ w ∈ rest, w.coerce type = .ok w := by
        intro w hw
        exact h w (List.mem_cons_of_mem first hw)
      rw [coerceItems, h first List.mem_cons_self, ih hrest]
      rfl

theorem coerceFields_of_forall {owner : ValueType} {fields : List (String × ValueType)}
    {values : List (String × Value α)}
    (h : ∀ name w, (name, w) ∈ values →
      ∃ type, Fields.get? name fields = some type ∧ w.coerce type = .ok w) :
    coerceFields owner fields values = .ok values := by
  induction values with
  | nil => rfl
  | cons value rest ih =>
      obtain ⟨name, first⟩ := value
      obtain ⟨type, hget, hfirst⟩ := h name first List.mem_cons_self
      have hrest := ih fun other w hw => h other w (List.mem_cons_of_mem _ hw)
      rw [coerceFields, hget]
      simp only [hfirst, hrest]
      rfl

/-- A value in the form of a type stays as it is. The induction is on the form. -/
theorem HasForm.coerce_eq {type : ValueType} {v : Value α} (h : HasForm type v)
    (htype : type.HasDistinctFields) : v.coerce type = .ok v := by
  induction h with
  | any v => cases v <;> rfl
  | @enum members s h => rw [coerce, if_pos (List.contains_iff_mem.mpr h)]
  | list _ ih =>
      rw [coerce, coerceItems_of_forall fun w hw => ih w hw htype]
      rfl
  | @record fields values names _ ih =>
      have hlength := names.length_eq
      rw [List.length_map, List.length_map] at hlength
      have hvalues : coerceFields (.record fields) fields values = .ok values := by
        apply coerceFields_of_forall
        intro name w hvalue
        have hname : name ∈ fields.map (·.1) := names.mem_iff.mp (List.mem_map_of_mem hvalue)
        obtain ⟨⟨key, type⟩, hfield, rfl⟩ := List.mem_map.mp hname
        have hget := Fields.get?_of_mem htype.1 hfield
        exact ⟨type, hget, ih key type w hfield hvalue (hasDistinctFields_of_get? htype.2 hget)⟩
      rw [coerce, if_pos hlength.symm, hvalues]
      rfl
  | _ => rfl

/-! ### Values that are brought into a form -/

omit [Number α] in
/-- A value that a type takes as it is, with no items or fields of its own to look at. -/
theorem hasForm_of_fit {type : ValueType} {v w : Value α} (h : v.fit type = .ok w)
    (hform : type.accepts v.type = true → HasForm type v) : HasForm type w := by
  rw [fit] at h
  split at h
  · rename_i haccepts
    obtain rfl := Except.ok.inj h
    exact hform haccepts
  · cases h

theorem exists_of_map_eq_ok {ε β γ : Type} {f : β → γ} {x : Except ε β} {c : γ}
    (h : x.map f = .ok c) : ∃ b, x = .ok b ∧ f b = c := by
  cases x with
  | error _ => cases h
  | ok b => exact ⟨b, rfl, Except.ok.inj h⟩

/-- Bringing fields into form keeps their names. -/
theorem names_coerceFields {owner : ValueType} {fields : List (String × ValueType)}
    {values found : List (String × Value α)} (h : coerceFields owner fields values = .ok found) :
    found.map (·.1) = values.map (·.1) ∧ ∀ name ∈ values.map (·.1), name ∈ fields.map (·.1) := by
  induction values generalizing found with
  | nil =>
      cases h
      exact ⟨rfl, nofun⟩
  | cons value rest ih =>
      obtain ⟨name, first⟩ := value
      rw [coerceFields] at h
      split at h
      · cases h
      · rename_i type hget
        obtain ⟨v, -, h⟩ := FormulaParser.exists_of_bind_eq_ok h
        obtain ⟨vs, hvs, h⟩ := FormulaParser.exists_of_bind_eq_ok h
        cases h
        obtain ⟨hsame, hrest⟩ := ih hvs
        refine ⟨by simp [hsame], ?_⟩
        intro other hother
        rcases List.mem_cons.mp hother with rfl | hother
        · exact List.mem_map_of_mem (Fields.mem_of_get? hget)
        · exact hrest other hother

mutual

/-- What comes of bringing a value into the form of a type has that form. The induction is on the
value. -/
theorem hasForm_of_coerce {type : ValueType} (htype : type.HasDistinctFields) (v : Value α)
    (hv : v.FieldsDiffer) {w : Value α} (h : v.coerce type = .ok w) : HasForm type w := by
  cases v with
  | scalar x =>
      cases type with
      | int =>
          rw [coerce] at h
          split at h
          · cases h
            exact .int _
          · cases h
      | string | path | margins | scalar | any =>
          cases h
          constructor
      | _ => cases h
  | int n =>
      cases type with
      | scalar | string | path | margins | int | any =>
          cases h
          constructor
      | _ => cases h
  | bool b =>
      cases type with
      | string | path | bool | any =>
          cases h
          constructor
      | _ => cases h
  | string s =>
      cases type with
      | enum members =>
          rw [coerce] at h
          split at h
          · rename_i hs
            cases h
            exact .enum (List.contains_iff_mem.mp hs)
          · cases h
      | string | path | any =>
          cases h
          constructor
      | _ => cases h
  | list items =>
      cases type with
      | list item =>
          rw [coerce] at h
          obtain ⟨ws, hws, rfl⟩ := exists_of_map_eq_ok h
          have hitem : item.HasDistinctFields := htype
          exact .list (hasForm_of_coerceItems hitem items hv hws)
      | any =>
          cases h
          exact .any _
      | _ => exact hasForm_of_fit h (by cases items <;> nofun)
  | record values =>
      cases type with
      | record fields =>
          by_cases hlength : fields.length = values.length
          · rw [coerce, if_pos hlength] at h
            obtain ⟨found, hfound, rfl⟩ := exists_of_map_eq_ok h
            obtain ⟨hnames, hsubset⟩ := names_coerceFields hfound
            have hperm : (found.map (·.1)).Perm (fields.map (·.1)) := by
              rw [hnames]
              exact (hv.1.subperm hsubset).perm_of_length_le (by simp [hlength])
            refine .record hperm ?_
            intro name type w hfield hw
            exact hasForm_of_coerceFields htype values hv.2 hfound hw
              (Fields.get?_of_mem htype.1 hfield)
          · rw [coerce, if_neg hlength] at h
            refine hasForm_of_fit h fun haccepts => ?_
            rw [Value.type, ValueType.accepts, Bool.and_eq_true, ValueType.length_fieldTypes,
              beq_iff_eq] at haccepts
            exact absurd haccepts.1 hlength
      | any =>
          cases h
          exact .any _
      | _ => cases h
  | _ =>
      -- Only the type of the value and the one of all values are left.
      cases type with
      | any =>
          cases h
          exact .any _
      | _ => first | (cases h; constructor) | cases h
termination_by structural v

theorem hasForm_of_coerceItems {type : ValueType} (htype : type.HasDistinctFields)
    (items : List (Value α)) (hitems : AllFieldsDiffer items) {ws : List (Value α)}
    (h : coerceItems type items = .ok ws) : ∀ w ∈ ws, HasForm type w := by
  cases items with
  | nil =>
      cases h
      exact nofun
  | cons first rest =>
      obtain ⟨v, vs, hv, hvs, rfl⟩ := exists_of_coerceItems_cons h
      have hfirst := hasForm_of_coerce htype first hitems.1 hv
      exact List.forall_mem_cons.mpr ⟨hfirst, hasForm_of_coerceItems htype rest hitems.2 hvs⟩
termination_by structural items

theorem hasForm_of_coerceFields {fields : List (String × ValueType)}
    (htype : (ValueType.record fields).HasDistinctFields) {owner : ValueType}
    (values : List (String × Value α)) (hvalues : FieldValuesDiffer values)
    {found : List (String × Value α)} (h : coerceFields owner fields values = .ok found)
    {name : String} {w : Value α} (hw : (name, w) ∈ found) {type : ValueType}
    (hget : Fields.get? name fields = some type) : HasForm type w := by
  cases values with
  | nil =>
      cases h
      cases hw
  | cons value rest =>
      obtain ⟨key, first⟩ := value
      rw [coerceFields] at h
      split at h
      · cases h
      · rename_i keyType hkey
        obtain ⟨v, hv, h⟩ := FormulaParser.exists_of_bind_eq_ok h
        obtain ⟨vs, hvs, h⟩ := FormulaParser.exists_of_bind_eq_ok h
        cases h
        rcases List.mem_cons.mp hw with heq | hw
        · obtain ⟨rfl, rfl⟩ := Prod.mk.inj heq
          obtain rfl := Option.some.inj (hkey.symm.trans hget)
          exact hasForm_of_coerce (hasDistinctFields_of_get? htype.2 hkey) first hvalues.1 hv
        · exact hasForm_of_coerceFields htype rest hvalues.2 hvs hw hget
termination_by structural values

end

/-- Bringing values into the form of a type is a projection onto the values in that form. The names
of the fields of a record, in the type and in the value, are different. -/
theorem coerce_projects {type : ValueType} (htype : type.HasDistinctFields) {v : Value α}
    (hv : v.FieldsDiffer) :
    (∀ w, v.coerce type = .ok w →
      HasForm type w ∧ type.accepts w.type = true ∧ w.coerce type = .ok w) ∧
    (HasForm type v → v.coerce type = .ok v) := by
  constructor
  · intro w hw
    have hform := hasForm_of_coerce htype v hv hw
    exact ⟨hform, type.accepts_of_conforms (hform.conforms htype), hform.coerce_eq htype⟩
  · intro hform
    exact hform.coerce_eq htype

/-- A record with a list of whole numbers, where the type asks for a list of scalars. -/
theorem coerce_projects_record :
    let type : ValueType := .record [("at", .list .scalar), ("side", .enum ["left", "right"])]
    let v : Value Float := .record [("side", .string "left"), ("at", .list [.int 1, .scalar 2.5])]
    let w : Value Float :=
      .record [("side", .string "left"), ("at", .list [.scalar (Number.ofInt 1), .scalar 2.5])]
    type.HasDistinctFields ∧ v.FieldsDiffer ∧ v.coerce type = .ok w ∧
      HasForm type w ∧ type.accepts w.type = true ∧ w.coerce type = .ok w := by
  have htype : (ValueType.record
      [("at", .list .scalar), ("side", .enum ["left", "right"])]).HasDistinctFields := by
    simp [HasDistinctFields, HaveDistinctFields]
  have hv : (Value.record
      [("side", .string "left"), ("at", .list [.int 1, .scalar (2.5 : Float)])]).FieldsDiffer := by
    simp [FieldsDiffer, AllFieldsDiffer, FieldValuesDiffer]
  exact ⟨htype, hv, rfl, (coerce_projects htype hv).1 _ rfl⟩

end Value

end PatternMarkup
