import Mathlib.Data.List.Perm.Subperm
import PatternMarkup.Formula.Value
import PatternMarkup.Proofs.Fields
import PatternMarkup.Proofs.Formula.Conformance
import PatternMarkup.Proofs.Formula.GrammarReading
/-!
What bringing a value into the form of a type does. The result is in that form already, and a value
that belongs to the type is refused only for a number that is no integer or a text that is none of
several names; it stays as it is where no number is converted.
-/

namespace PatternMarkup

variable {α : Type}

namespace ValueType

/-! ### Types with fields -/

mutual

/-- The fields of every record in the type have names of their own. -/
def HasDistinctFields : ValueType → Prop
  | list item => item.HasDistinctFields
  | record fields => (fields.map (·.1)).Nodup ∧ HaveDistinctFields fields
  | _ => True

/-- The same for the types of fields. -/
def HaveDistinctFields : List (String × ValueType) → Prop
  | [] => True
  | (_, type) :: rest => type.HasDistinctFields ∧ HaveDistinctFields rest

end

theorem AdmitsFields.exists_mem {widened : Prop} {fields : List (String × ValueType)}
    {values : List (String × Value α)} (h : AdmitsFields widened fields values) :
    fields.map (·.1) ⊆ values.map (·.1) := by
  induction fields with
  | nil => exact List.nil_subset _
  | cons field rest ih =>
      obtain ⟨key, type⟩ := field
      obtain ⟨⟨w, hw, -⟩, hrest⟩ := h
      rw [List.map_cons, List.cons_subset]
      exact ⟨List.mem_map_of_mem (Fields.mem_of_get? hw), ih hrest⟩

/-- As many values as fields leave no value without a field. -/
theorem AdmitsFields.exists_field {widened : Prop} {fields : List (String × ValueType)}
    {values : List (String × Value α)} (h : AdmitsFields widened fields values)
    (hnodup : (fields.map (·.1)).Nodup) (hlength : fields.length = values.length)
    {name : String} {w : Value α} (hw : (name, w) ∈ values) :
    ∃ type, Fields.get? name fields = some type ∧ type.Admits widened w := by
  have hperm : (fields.map (·.1)).Perm (values.map (·.1)) := by
    refine (hnodup.subperm h.exists_mem).perm_of_length_le ?_
    simp [hlength]
  have hname : name ∈ fields.map (·.1) := hperm.mem_iff.mpr (List.mem_map_of_mem hw)
  obtain ⟨⟨key, type⟩, hmem, rfl⟩ := List.mem_map.mp hname
  have hget := Fields.get?_of_mem hnodup hmem
  obtain ⟨v, hv, hadmits⟩ := h.exists_of_get? hget
  rw [Fields.get?_of_mem (hperm.nodup hnodup) hw] at hv
  obtain rfl := Option.some.inj hv
  exact ⟨type, hget, hadmits⟩

/-! ### Places in a value -/

/-- A type and a value have a property at some place: as a whole, at an item or at a field. -/
inductive Somewhere (p : ValueType → Value α → Prop) : ValueType → Value α → Prop
  | here {type : ValueType} {v : Value α} (h : p type v) : Somewhere p type v
  | item {type : ValueType} {items : List (Value α)} {w : Value α} (hw : w ∈ items)
      (h : Somewhere p type w) : Somewhere p (list type) (.list items)
  | field {fields : List (String × ValueType)} {values : List (String × Value α)} {name : String}
      {type : ValueType} {w : Value α} (htype : Fields.get? name fields = some type)
      (hw : (name, w) ∈ values) (h : Somewhere p type w) :
      Somewhere p (record fields) (.record values)

/-- The value is a number of another kind than the type asks for. -/
def Converts : ValueType → Value α → Prop
  | scalar, .int _ => True
  | int, .scalar _ => True
  | margins, .scalar _ => True
  | margins, .int _ => True
  | _, _ => False

variable [Number α]

/-- The value is of a kind that the type takes, but none of its values: a number that is no integer,
or another text than several names. -/
def Refuses : ValueType → Value α → Prop
  | int, .scalar x => Value.isInteger x = false
  | enum members, .string s => members.contains s = false
  | _, _ => False

end ValueType

variable [Number α]

namespace Value

open ValueType (Somewhere Converts Refuses)

theorem coerce_coerce_of_fit {v w : Value α} {type : ValueType}
    (hfit : v.coerce type = v.fit type) (h : v.coerce type = .ok w) : w.coerce type = .ok w := by
  have hv : v.fit type = .ok w := hfit.symm.trans h
  rw [fit] at hv
  split at hv
  · obtain rfl := Except.ok.inj hv
    exact h
  · cases hv

theorem exists_of_coerceItems_cons {type : ValueType} {first : Value α} {rest ws : List (Value α)}
    (h : coerceItems type (first :: rest) = .ok ws) :
    ∃ v vs, first.coerce type = .ok v ∧ coerceItems type rest = .ok vs ∧ ws = v :: vs := by
  rw [coerceItems] at h
  obtain ⟨v, hv, h⟩ := FormulaParser.exists_of_bind_eq_ok h
  obtain ⟨vs, hvs, h⟩ := FormulaParser.exists_of_bind_eq_ok h
  exact ⟨v, vs, hv, hvs, (Except.ok.inj h).symm⟩

mutual

/-- A value that has been brought into the form of a type is in that form. -/
theorem coerce_coerce (v : Value α) {type : ValueType} {w : Value α}
    (h : v.coerce type = .ok w) : w.coerce type = .ok w := by
  cases v with
  | scalar x =>
      cases type with
      | int =>
          rw [coerce] at h
          split at h
          · cases h
            rfl
          · cases h
      | string | path | margins =>
          cases h
          rfl
      | _ => exact coerce_coerce_of_fit rfl h
  | int n =>
      cases type with
      | scalar | string | path | margins =>
          cases h
          rfl
      | _ => exact coerce_coerce_of_fit rfl h
  | bool b =>
      cases type with
      | string | path =>
          cases h
          rfl
      | _ => exact coerce_coerce_of_fit rfl h
  | string s =>
      cases type with
      | enum members =>
          have hs := h
          rw [coerce] at hs
          split at hs
          · cases hs
            exact h
          · cases hs
      | _ => exact coerce_coerce_of_fit rfl h
  | list items =>
      cases type with
      | list item =>
          rw [coerce] at h
          cases hitems : coerceItems item items with
          | error e =>
              rw [hitems] at h
              cases h
          | ok values =>
              rw [hitems] at h
              cases h
              rw [coerce, coerceItems_coerceItems items hitems]
              rfl
      | _ => exact coerce_coerce_of_fit rfl h
  | record values =>
      cases type with
      | record fields =>
          by_cases hlength : fields.length = values.length
          · rw [coerce, if_pos hlength] at h
            cases hfields : coerceFields (.record fields) fields values with
            | error e =>
                rw [hfields] at h
                cases h
            | ok found =>
                rw [hfields] at h
                cases h
                obtain ⟨hlength', hfound⟩ := coerceFields_coerceFields values hfields
                rw [coerce, if_pos (hlength.trans hlength'), hfound]
                rfl
          · refine coerce_coerce_of_fit ?_ h
            rw [coerce, if_neg hlength]
      | _ => exact coerce_coerce_of_fit rfl h
  | _ => exact coerce_coerce_of_fit rfl h

theorem coerceItems_coerceItems (items : List (Value α)) {type : ValueType}
    {values : List (Value α)} (h : coerceItems type items = .ok values) :
    coerceItems type values = .ok values := by
  cases items with
  | nil =>
      cases h
      rfl
  | cons first rest =>
      obtain ⟨v, vs, hv, hvs, rfl⟩ := exists_of_coerceItems_cons h
      rw [coerceItems, coerce_coerce first hv, coerceItems_coerceItems rest hvs]
      rfl

theorem coerceFields_coerceFields {owner : ValueType} {fields : List (String × ValueType)}
    (values : List (String × Value α)) {found : List (String × Value α)}
    (h : coerceFields owner fields values = .ok found) :
    values.length = found.length ∧ coerceFields owner fields found = .ok found := by
  cases values with
  | nil =>
      cases h
      exact ⟨rfl, rfl⟩
  | cons value rest =>
      obtain ⟨name, first⟩ := value
      rw [coerceFields] at h
      split at h
      · cases h
      · rename_i type hname
        obtain ⟨v, hv, h⟩ := FormulaParser.exists_of_bind_eq_ok h
        obtain ⟨vs, hvs, h⟩ := FormulaParser.exists_of_bind_eq_ok h
        cases h
        obtain ⟨hlength, hrest⟩ := coerceFields_coerceFields rest hvs
        refine ⟨by simp [hlength], ?_⟩
        rw [coerceFields, hname]
        simp only [coerce_coerce first hv, hrest]
        rfl

end

/-- A value can be brought into the form of a type, where it stays as it is unless a number in it is
converted, or something in it is refused. -/
def Suits (type : ValueType) (v : Value α) : Prop :=
  (∃ w, v.coerce type = .ok w ∧ (w = v ∨ Somewhere Converts type v)) ∨ Somewhere Refuses type v

theorem suits_of_coerce {type : ValueType} {v : Value α} (h : v.coerce type = .ok v) :
    v.Suits type :=
  .inl ⟨v, h, .inl rfl⟩

theorem suits_of_converts {type : ValueType} {v w : Value α} (h : v.coerce type = .ok w)
    (hconverts : Converts type v) : v.Suits type :=
  .inl ⟨w, h, .inr (.here hconverts)⟩

theorem suits_list {type : ValueType} {items : List (Value α)} (h : ∀ w ∈ items, w.Suits type) :
    (list items).Suits (.list type) := by
  have hitems : (∃ ws, coerceItems type items = .ok ws ∧
        (ws = items ∨ ∃ w ∈ items, Somewhere Converts type w)) ∨
      ∃ w ∈ items, Somewhere Refuses type w := by
    induction items with
    | nil => exact .inl ⟨[], rfl, .inl rfl⟩
    | cons first rest ih =>
        rcases h first List.mem_cons_self with ⟨v, hv, hsame⟩ | hrefuses
        · rcases ih fun w hw => h w (List.mem_cons_of_mem first hw) with
            ⟨vs, hvs, hsames⟩ | ⟨w, hw, hrefuses⟩
          · refine .inl ⟨v :: vs, by rw [coerceItems, hv, hvs]; rfl, ?_⟩
            rcases hsame with rfl | hconverts
            · rcases hsames with rfl | ⟨w, hw, hconverts⟩
              · exact .inl rfl
              · exact .inr ⟨w, List.mem_cons_of_mem v hw, hconverts⟩
            · exact .inr ⟨first, List.mem_cons_self, hconverts⟩
          · exact .inr ⟨w, List.mem_cons_of_mem first hw, hrefuses⟩
        · exact .inr ⟨first, List.mem_cons_self, hrefuses⟩
  rcases hitems with ⟨ws, hws, hsame⟩ | ⟨w, hw, hrefuses⟩
  · refine .inl ⟨.list ws, by rw [coerce, hws]; rfl, ?_⟩
    rcases hsame with rfl | ⟨w, hw, hconverts⟩
    · exact .inl rfl
    · exact .inr (.item hw hconverts)
  · exact .inr (.item hw hrefuses)

theorem suits_record {fields : List (String × ValueType)} {values : List (String × Value α)}
    (hlength : fields.length = values.length)
    (h : ∀ name w, (name, w) ∈ values →
      ∃ type, Fields.get? name fields = some type ∧ w.Suits type) :
    (record values).Suits (.record fields) := by
  have hvalues : (∃ ws, coerceFields (.record fields) fields values = .ok ws ∧
        (ws = values ∨ ∃ name w type, (name, w) ∈ values ∧
          Fields.get? name fields = some type ∧ Somewhere Converts type w)) ∨
      ∃ name w type, (name, w) ∈ values ∧ Fields.get? name fields = some type ∧
        Somewhere Refuses type w := by
    clear hlength
    induction values with
    | nil => exact .inl ⟨[], rfl, .inl rfl⟩
    | cons value rest ih =>
        obtain ⟨name, first⟩ := value
        obtain ⟨type, hget, hsuits⟩ := h name first List.mem_cons_self
        rcases hsuits with ⟨v, hv, hsame⟩ | hrefuses
        · rcases ih fun other w hw => h other w (List.mem_cons_of_mem _ hw) with
            ⟨vs, hvs, hsames⟩ | ⟨other, w, found, hw, hfound, hrefuses⟩
          · refine .inl ⟨(name, v) :: vs, ?_, ?_⟩
            · rw [coerceFields, hget]
              simp only [hv, hvs]
              rfl
            · rcases hsame with rfl | hconverts
              · rcases hsames with rfl | ⟨other, w, found, hw, hfound, hconverts⟩
                · exact .inl rfl
                · exact .inr ⟨other, w, found, List.mem_cons_of_mem _ hw, hfound, hconverts⟩
              · exact .inr ⟨name, first, type, List.mem_cons_self, hget, hconverts⟩
          · exact .inr ⟨other, w, found, List.mem_cons_of_mem _ hw, hfound, hrefuses⟩
        · exact .inr ⟨name, first, type, List.mem_cons_self, hget, hrefuses⟩
  rcases hvalues with ⟨ws, hws, hsame⟩ | ⟨name, w, type, hw, hget, hrefuses⟩
  · refine .inl ⟨.record ws, by rw [coerce, if_pos hlength, hws]; rfl, ?_⟩
    rcases hsame with rfl | ⟨name, w, type, hw, hget, hconverts⟩
    · exact .inl rfl
    · exact .inr (.field hget hw hconverts)
  · exact .inr (.field hget hw hrefuses)

mutual

/-- Values that belong to a type can be brought into its form, up to what is refused. The induction
is on the type. -/
theorem suits_of_admits (type : ValueType) {v : Value α} (hdistinct : type.HasDistinctFields)
    (h : type.Admits True v) : v.Suits type := by
  cases type with
  | any => exact suits_of_coerce (by cases v <;> rfl)
  | scalar =>
      rcases h with ⟨x, rfl⟩ | ⟨n, rfl⟩
      · exact suits_of_coerce rfl
      · exact suits_of_converts rfl trivial
  | int =>
      rcases h with ⟨n, rfl⟩ | ⟨-, x, rfl⟩
      · exact suits_of_coerce rfl
      · by_cases hx : isInteger x = true
        · exact suits_of_converts (by rw [coerce, if_pos hx]) trivial
        · exact .inr (.here (Bool.eq_false_iff.mpr hx))
  | enum members =>
      obtain ⟨s, rfl⟩ := h
      by_cases hs : members.contains s = true
      · exact suits_of_coerce (by rw [coerce, if_pos hs])
      · exact .inr (.here (Bool.eq_false_iff.mpr hs))
  | list item =>
      obtain ⟨items, rfl, hitems⟩ := h
      exact suits_list fun w hw => suits_of_admits item hdistinct (hitems w hw)
  | record fields =>
      obtain ⟨values, rfl, hlength, hfields⟩ := h
      refine suits_record hlength fun name w hw => ?_
      obtain ⟨type, hget, hadmits⟩ := hfields.exists_field hdistinct.1 hlength hw
      exact ⟨type, hget, suits_of_get? fields hdistinct.2 hget hadmits⟩
  | _ =>
      obtain ⟨x, rfl⟩ := h
      exact suits_of_coerce rfl

theorem suits_of_get? (fields : List (String × ValueType)) {name : String} {type : ValueType}
    {v : Value α} (hdistinct : ValueType.HaveDistinctFields fields)
    (hget : Fields.get? name fields = some type) (h : type.Admits True v) : v.Suits type := by
  cases fields with
  | nil => cases hget
  | cons field rest =>
      obtain ⟨key, first⟩ := field
      rw [Fields.get?] at hget
      split at hget
      · obtain rfl := Option.some.inj hget
        exact suits_of_admits first hdistinct.1 h
      · exact suits_of_get? rest hdistinct.2 hget h

end

end Value

end PatternMarkup
