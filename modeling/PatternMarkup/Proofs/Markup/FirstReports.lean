import Mathlib.Data.List.Nodup
import PatternMarkup.Markup.Diagnostic
/-!
Which reports a collection keeps: at every span the first one that was made, and no other.
-/

namespace PatternMarkup.Diagnostics

/-- The first report of a list at a span. -/
def firstAt (made : List Diagnostic) (span : Span) : Option Diagnostic :=
  made.find? fun d => d.span == span

theorem firstAt_cons (d : Diagnostic) (made : List Diagnostic) (span : Span) :
    firstAt (d :: made) span = if d.span = span then some d else firstAt made span := by
  by_cases h : d.span = span
  · rw [firstAt, List.find?_cons_of_pos (by simp [h]), if_pos h]
  · rw [firstAt, List.find?_cons_of_neg (by simp [h]), if_neg h]
    rfl

/-- One more report is kept exactly if there is none at its span. -/
theorem mem_items_push {ds : Diagnostics} {d e : Diagnostic} :
    e ∈ (ds.push d).items ↔
      e ∈ ds.items ∨ d.span ∉ ds.items.map Diagnostic.span ∧ e = d := by
  by_cases h : d.span ∈ ds.items.map Diagnostic.span
  · rw [items_push_of_mem h]
    simp only [h, not_true_eq_false, false_and, or_false]
  · rw [items_push_of_not_mem h, List.mem_append, List.mem_singleton]
    simp only [h, not_false_eq_true, true_and]

/-- A collection grows by the reports that are the first at spans it had none at. -/
theorem mem_items_pushAll {ds : Diagnostics} {made : List Diagnostic} {e : Diagnostic} :
    e ∈ (ds.pushAll made).items ↔
      e ∈ ds.items ∨ e.span ∉ ds.items.map Diagnostic.span ∧ firstAt made e.span = some e := by
  induction made generalizing ds with
  | nil => simp [pushAll, firstAt]
  | cons d made ih =>
      have hspans : e.span ∈ (ds.push d).items.map Diagnostic.span ↔
          e.span ∈ ds.items.map Diagnostic.span ∨ e.span = d.span := by
        by_cases h : d.span ∈ ds.items.map Diagnostic.span
        · rw [items_push_of_mem h]
          constructor
          · exact .inl
          · rintro (hmem | heq)
            · exact hmem
            · exact heq ▸ h
        · rw [items_push_of_not_mem h, List.map_append, List.mem_append]
          simp
      rw [pushAll, List.foldl_cons, ← pushAll, ih, mem_items_push, hspans, firstAt_cons]
      by_cases hspan : d.span = e.span
      · rw [if_pos hspan, hspan, Option.some.injEq]
        simp only [or_true, not_true_eq_false, false_and, or_false]
        exact or_congr_right (and_congr_right fun _ => eq_comm)
      · rw [if_neg hspan]
        have hne : e ≠ d := by
          rintro rfl
          exact hspan rfl
        simp [hne, Ne.symm hspan]

/-- A report is kept exactly if it is the first one made at its span. -/
theorem mem_items_ofList {made : List Diagnostic} {e : Diagnostic} :
    e ∈ (ofList made).items ↔ firstAt made e.span = some e := by
  rw [ofList, mem_items_pushAll]
  simp [empty]

theorem span_of_firstAt {made : List Diagnostic} {span : Span} {d : Diagnostic}
    (h : firstAt made span = some d) : d.span = span := by
  simpa using List.find?_some h

theorem exists_firstAt {made : List Diagnostic} {d : Diagnostic} (h : d ∈ made) :
    ∃ e, firstAt made d.span = some e :=
  Option.isSome_iff_exists.mp (List.find?_isSome.mpr ⟨d, h, beq_self_eq_true d.span⟩)

/-- At a span a collection keeps the first report made there, if there is one. -/
theorem filter_items_ofList (made : List Diagnostic) (span : Span) :
    (ofList made).items.filter (fun d => d.span == span) = (firstAt made span).toList := by
  have hmem : ∀ d, d ∈ (ofList made).items.filter (fun d => d.span == span) ↔
      firstAt made span = some d := by
    intro d
    rw [List.mem_filter, mem_items_ofList, beq_iff_eq]
    constructor
    · rintro ⟨h, rfl⟩
      exact h
    · intro h
      have hspan := span_of_firstAt h
      exact ⟨hspan.symm ▸ h, hspan⟩
  have hdistinct : ((ofList made).items.filter (fun d => d.span == span)).Nodup :=
    ((ofList made).distinct.of_map Diagnostic.span).filter _
  cases hfirst : firstAt made span with
  | none =>
      refine List.eq_nil_iff_forall_not_mem.mpr fun d hd => ?_
      rw [hmem, hfirst] at hd
      cases hd
  | some d =>
      refine List.perm_singleton.mp ((List.perm_ext_iff_of_nodup hdistinct ?_).mpr fun e => ?_)
      · exact List.nodup_singleton d
      · rw [hmem, hfirst, List.mem_singleton, Option.some.injEq, eq_comm]

end PatternMarkup.Diagnostics
