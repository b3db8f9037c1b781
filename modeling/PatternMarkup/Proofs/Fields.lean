import Mathlib.Data.List.Forall2
import Mathlib.Data.String.Basic
import PatternMarkup.Fields
/-!
Named fields. A field that is put in its place is found there and hides no other one; the names
stay in order; and where fields go depends on their names alone.
-/

namespace PatternMarkup.Fields

variable {β γ : Type} {name other : String} {x : β}

/-! ### Fields that are found -/

attribute [local simp] get? insert

theorem mem_of_get? {fields : List (String × β)} (h : get? name fields = some x) :
    (name, x) ∈ fields := by
  induction fields with
  | nil => cases h
  | cons field rest ih =>
      obtain ⟨key, first⟩ := field
      rw [get?] at h
      split at h
      · rename_i hkey
        obtain rfl := Option.some.inj h
        rw [hkey]
        exact List.mem_cons_self
      · exact List.mem_cons_of_mem _ (ih h)

theorem get?_of_mem {fields : List (String × β)} (hnodup : (fields.map (·.1)).Nodup)
    (h : (name, x) ∈ fields) : get? name fields = some x := by
  induction fields with
  | nil => cases h
  | cons field rest ih =>
      obtain ⟨key, first⟩ := field
      rw [List.map_cons, List.nodup_cons] at hnodup
      rw [get?]
      rcases List.mem_cons.mp h with h | h
      · obtain ⟨rfl, rfl⟩ := Prod.mk.inj h
        rw [if_pos rfl]
      · have hkey : key ≠ name := by
          rintro rfl
          exact hnodup.1 (List.mem_map.mpr ⟨_, h, rfl⟩)
        rw [if_neg hkey]
        exact ih hnodup.2 h

theorem get?_insert_self (name : String) (x : β) (fields : List (String × β)) :
    get? name (insert name x fields) = some x := by
  induction fields with
  | nil => rw [insert, get?, if_pos rfl]
  | cons field rest ih =>
      obtain ⟨key, first⟩ := field
      rw [insert]
      split_ifs with heq hlt
      · rw [get?, if_pos rfl]
      · rw [get?, if_pos rfl]
      · rw [get?, if_neg (Ne.symm heq), ih]

theorem get?_insert_of_ne (h : other ≠ name) (x : β) (fields : List (String × β)) :
    get? other (insert name x fields) = get? other fields := by
  induction fields with
  | nil => simp [insert, get?, Ne.symm h]
  | cons field rest ih =>
      obtain ⟨key, first⟩ := field
      rw [insert]
      split_ifs with heq hlt
      · rw [get?, get?, if_neg (Ne.symm h), if_neg (heq ▸ Ne.symm h)]
      · rw [get?, if_neg (Ne.symm h)]
      · rw [get?, get?, ih]

/-! ### Names -/

/-- A field of a new name is one more. -/
theorem names_insert_perm {fields : List (String × β)} (h : name ∉ fields.map (·.1)) (x : β) :
    ((insert name x fields).map (·.1)).Perm (name :: fields.map (·.1)) := by
  induction fields with
  | nil => exact .refl _
  | cons field rest ih =>
      obtain ⟨key, first⟩ := field
      rw [List.map_cons, List.mem_cons, not_or] at h
      rw [insert, if_neg h.1]
      split_ifs with hlt
      · exact .refl _
      · exact ((ih h.2).cons key).trans (.swap name key _)

theorem mem_names_insert {fields : List (String × β)}
    (h : other ∈ (insert name x fields).map (·.1)) : other = name ∨ other ∈ fields.map (·.1) := by
  induction fields with
  | nil => exact .inl (List.mem_singleton.mp h)
  | cons field rest ih =>
      obtain ⟨key, first⟩ := field
      rw [insert] at h
      split_ifs at h with heq hlt
      · exact (List.mem_cons.mp h).imp_right (List.mem_cons_of_mem key)
      · exact List.mem_cons.mp h
      · rcases List.mem_cons.mp h with rfl | h
        · exact .inr List.mem_cons_self
        · exact (ih h).imp_right (List.mem_cons_of_mem key)

/-- The names stay in order. -/
theorem increasing_insert {fields : List (String × β)}
    (h : (fields.map (·.1)).Pairwise (· < ·)) (name : String) (x : β) :
    ((insert name x fields).map (·.1)).Pairwise (· < ·) := by
  induction fields with
  | nil => exact List.pairwise_singleton _ _
  | cons field rest ih =>
      obtain ⟨key, first⟩ := field
      obtain ⟨hfirst, hrest⟩ := List.pairwise_cons.mp h
      rw [insert]
      split_ifs with heq hlt
      · subst heq
        exact h
      · refine List.pairwise_cons.mpr ⟨fun other hother => ?_, h⟩
        rcases List.mem_cons.mp hother with rfl | hother
        · exact hlt
        · exact hlt.trans (hfirst other hother)
      · refine List.pairwise_cons.mpr ⟨fun other hother => ?_, ih hrest⟩
        rcases mem_names_insert hother with rfl | hother
        · exact lt_of_le_of_ne (not_lt.mp hlt) (Ne.symm heq)
        · exact hfirst other hother

theorem nodup_ofList (fields : List (String × β)) : ((ofList fields).map (·.1)).Nodup := by
  have hfold : ∀ sorted : List (String × β), (sorted.map (·.1)).Pairwise (· < ·) →
      ((fields.foldl (fun sorted field => insert field.1 field.2 sorted) sorted).map
        (·.1)).Pairwise (· < ·) := by
    induction fields with
    | nil => exact fun sorted h => h
    | cons field rest ih => exact fun sorted h => ih _ (increasing_insert h _ _)
  exact (hfold [] .nil).imp ne_of_lt

/-! ### Fields side by side -/

/-- Two lists of fields have the same names, and the values of each name are related. -/
def SideBySide (R : β → γ → Prop) : List (String × β) → List (String × γ) → Prop :=
  List.Forall₂ fun field field' => field.1 = field'.1 ∧ R field.2 field'.2

variable {R : β → γ → Prop} {left : List (String × β)} {right : List (String × γ)} {y : γ}

theorem SideBySide.exists_of_mem (h : SideBySide R left right) (hmem : (name, x) ∈ left) :
    ∃ y, (name, y) ∈ right ∧ R x y := by
  induction h with
  | nil => cases hmem
  | @cons field field' rest rest' hfirst hrest ih =>
      obtain ⟨key', first'⟩ := field'
      rcases List.mem_cons.mp hmem with rfl | hmem
      · obtain ⟨rfl, hfirst⟩ : name = key' ∧ R x first' := hfirst
        exact ⟨first', List.mem_cons_self, hfirst⟩
      · obtain ⟨y, hy, hxy⟩ := ih hmem
        exact ⟨y, List.mem_cons_of_mem _ hy, hxy⟩

theorem SideBySide.insert (h : SideBySide R left right) (name : String) (hxy : R x y) :
    SideBySide R (Fields.insert name x left) (Fields.insert name y right) := by
  induction h with
  | nil => exact .cons ⟨rfl, hxy⟩ .nil
  | @cons field field' rest rest' hfirst hrest ih =>
      obtain ⟨key, first⟩ := field
      obtain ⟨key', first'⟩ := field'
      obtain ⟨rfl, hfirst⟩ : key = key' ∧ R first first' := hfirst
      rw [Fields.insert, Fields.insert]
      split_ifs with heq hlt
      · exact .cons ⟨rfl, hxy⟩ hrest
      · exact .cons ⟨rfl, hxy⟩ (.cons ⟨rfl, hfirst⟩ hrest)
      · exact .cons ⟨rfl, hfirst⟩ ih

/-- Fields in the order of their names stay side by side. -/
theorem SideBySide.ofList (h : SideBySide R left right) :
    SideBySide R (Fields.ofList left) (Fields.ofList right) := by
  have hfold : ∀ sorted sorted', SideBySide R sorted sorted' →
      SideBySide R (left.foldl (fun sorted field => Fields.insert field.1 field.2 sorted) sorted)
        (right.foldl (fun sorted field => Fields.insert field.1 field.2 sorted) sorted') := by
    induction h with
    | nil => exact fun sorted sorted' h => h
    | @cons field field' rest rest' hfirst hrest ih =>
        obtain ⟨key, first⟩ := field
        obtain ⟨key', first'⟩ := field'
        obtain ⟨rfl, hfirst⟩ : key = key' ∧ R first first' := hfirst
        exact fun sorted sorted' h => ih _ _ (h.insert key hfirst)
  exact hfold [] [] .nil

end PatternMarkup.Fields
