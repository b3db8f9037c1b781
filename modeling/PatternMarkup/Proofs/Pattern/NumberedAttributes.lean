import Mathlib.Data.List.Indexes
import Mathlib.Data.List.OfFn
import Mathlib.Data.List.Sort
import PatternMarkup.Pattern.InstanceBinding
/-!
The numbered attributes of a name: which they are, and in which order. Numbers come first; of two
attributes with one number, such as `x1` and `x01`, the one that is written first comes first.
-/

namespace PatternMarkup

/-- The numbered attributes of a name in the order they are written. -/
def numberedAsWritten (name : String) (attributes : List InstanceAttribute) :
    List (Nat × Nat × InstanceAttribute) :=
  (attributes.mapIdx fun index a => (index, a)).filterMap fun (index, a) =>
    (numberAfter? name a.name).map fun n => (n, index, a)

theorem map_snd_mapIdx {β : Type} (xs : List β) :
    (xs.mapIdx fun index x => (index, x)).map (·.2) = xs := by
  refine List.ext_getElem? fun k => ?_
  rw [List.getElem?_map, List.getElem?_mapIdx]
  cases xs[k]? <;> rfl

variable {name : String} {attributes : List InstanceAttribute}

theorem mem_numberedAsWritten {t : Nat × Nat × InstanceAttribute} :
    t ∈ numberedAsWritten name attributes ↔
      attributes[t.2.1]? = some t.2.2 ∧ numberAfter? name t.2.2.name = some t.1 := by
  obtain ⟨n, index, a⟩ := t
  rw [numberedAsWritten, List.mem_filterMap]
  constructor
  · rintro ⟨⟨index', a'⟩, hmem, ht⟩
    obtain ⟨k, hk, hpair⟩ := List.mem_mapIdx.mp hmem
    obtain ⟨rfl, rfl⟩ := Prod.mk.inj hpair
    obtain ⟨n', hn', ht⟩ := Option.map_eq_some_iff.mp ht
    obtain ⟨rfl, rfl, rfl⟩ : n' = n ∧ k = index ∧ attributes[k] = a := by simpa using ht
    exact ⟨List.getElem?_eq_getElem hk, hn'⟩
  · rintro ⟨ha, hn⟩
    obtain ⟨hindex, ha⟩ := List.getElem?_eq_some_iff.mp ha
    refine ⟨(index, a), List.mem_mapIdx.mpr ⟨index, hindex, by rw [ha]⟩, ?_⟩
    exact Option.map_eq_some_iff.mpr ⟨n, hn, rfl⟩

/-- They are written one after another. -/
theorem increasing_numberedAsWritten (name : String) (attributes : List InstanceAttribute) :
    (numberedAsWritten name attributes).Pairwise fun t t' => t.2.1 < t'.2.1 := by
  have hindices : (attributes.mapIdx fun index a => (index, a)).Pairwise fun x y => x.1 < y.1 := by
    rw [List.mapIdx_eq_ofFn, List.pairwise_ofFn]
    exact fun _ _ hlt => hlt
  refine hindices.filterMap _ fun x y hlt t ht t' ht' => ?_
  obtain ⟨n, -, rfl⟩ := Option.map_eq_some_iff.mp ht
  obtain ⟨n', -, rfl⟩ := Option.map_eq_some_iff.mp ht'
  exact hlt

/-- The order of numbered attributes: by their numbers, then by their positions. -/
def numberedBefore (t t' : Nat × Nat × InstanceAttribute) : Bool :=
  decide (t.1 < t'.1) || (t.1 == t'.1 && decide (t.2.1 ≤ t'.2.1))

theorem numberedBefore_iff {t t' : Nat × Nat × InstanceAttribute} :
    numberedBefore t t' = true ↔ t.1 < t'.1 ∨ t.1 = t'.1 ∧ t.2.1 ≤ t'.2.1 := by
  simp [numberedBefore]

theorem numberedAttributes_perm (name : String) (attributes : List InstanceAttribute) :
    (numberedAttributes name attributes).Perm (numberedAsWritten name attributes) :=
  List.mergeSort_perm _ _

theorem mem_numberedAttributes {t : Nat × Nat × InstanceAttribute} :
    t ∈ numberedAttributes name attributes ↔
      attributes[t.2.1]? = some t.2.2 ∧ numberAfter? name t.2.2.name = some t.1 :=
  (numberedAttributes_perm name attributes).mem_iff.trans mem_numberedAsWritten

theorem sorted_numberedAttributes (name : String) (attributes : List InstanceAttribute) :
    (numberedAttributes name attributes).Pairwise fun t t' => numberedBefore t t' = true := by
  unfold numberedAttributes
  refine List.pairwise_mergeSort (fun a b c hab hbc => ?_) (fun a b => ?_) _
  · rw [numberedBefore_iff] at hab hbc ⊢
    omega
  · rw [Bool.or_eq_true, numberedBefore_iff, numberedBefore_iff]
    omega

/-- An attribute stands at its position with the number it has. -/
theorem eq_of_mem_numberedAttributes {t t' : Nat × Nat × InstanceAttribute}
    (ht : t ∈ numberedAttributes name attributes) (ht' : t' ∈ numberedAttributes name attributes)
    (h : t.2.1 = t'.2.1) : t = t' := by
  obtain ⟨n, index, a⟩ := t
  obtain ⟨n', index', a'⟩ := t'
  obtain rfl : index = index' := h
  obtain ⟨ha, hn⟩ := mem_numberedAttributes.mp ht
  obtain ⟨ha', hn'⟩ := mem_numberedAttributes.mp ht'
  obtain rfl : a = a' := Option.some.inj (ha.symm.trans ha')
  obtain rfl : n = n' := Option.some.inj (hn.symm.trans hn')
  rfl

/-- The numbers and the attributes, without the positions. -/
theorem map_numberedAsWritten (name : String) (attributes : List InstanceAttribute) :
    (numberedAsWritten name attributes).map (fun t => (t.1, t.2.2)) =
      attributes.filterMap fun a => (numberAfter? name a.name).map fun n => (n, a) := by
  rw [numberedAsWritten, List.map_filterMap]
  conv_rhs => rw [← map_snd_mapIdx attributes, List.filterMap_map]
  refine List.filterMap_congr fun x _ => ?_
  simp [Option.map_map, Function.comp_def]

/-- Attributes that are written in the order of their numbers stay as they are. -/
theorem numberedAttributes_of_sorted
    (h : (attributes.filterMap fun a => (numberAfter? name a.name).map fun n => (n, a)).Pairwise
      fun x y => x.1 ≤ y.1) :
    (numberedAttributes name attributes).map (fun t => (t.1, t.2.2)) =
      attributes.filterMap fun a => (numberAfter? name a.name).map fun n => (n, a) := by
  rw [← map_numberedAsWritten] at h ⊢
  rw [List.pairwise_map] at h
  have hbefore : (numberedAsWritten name attributes).Pairwise
      fun t t' => numberedBefore t t' = true := by
    refine (h.and (increasing_numberedAsWritten name attributes)).imp fun hle => ?_
    rw [numberedBefore_iff]
    omega
  have hsorted : numberedAttributes name attributes = numberedAsWritten name attributes :=
    List.mergeSort_of_pairwise hbefore
  rw [hsorted]

/-- A number that is written after a name is read there. -/
theorem numberAfter?_append {n : Nat} (hpos : 0 < n) (hfits : n < 4294967296) (name : String) :
    numberAfter? name (name ++ toString n) = some n := by
  have hdigits : (Nat.toDigits 10 n).all Char.isDigit = true :=
    List.all_eq_true.mpr fun c hc => Nat.isDigit_of_mem_toDigits (by decide) (by decide) hc
  have hvalue : digitsValue 0 (Nat.toDigits 10 n) = n :=
    Nat.ofDigitChars_toDigits (by decide) (by decide)
  have hread : readCount? (Nat.toDigits 10 n) = some n := by
    rw [readCount?, hdigits, hvalue, if_pos hfits,
      List.isEmpty_eq_false_iff.mpr Nat.toDigits_ne_nil]
    rfl
  have hname : (name ++ toString n).toList = name.toList ++ Nat.toDigits 10 n := by
    rw [String.toList_append, Nat.toString_eq_repr, Nat.toList_repr]
  rw [numberAfter?, hname, List.isPrefixOf_iff_prefix.mpr (List.prefix_append _ _), if_pos rfl,
    List.drop_left, hread]
  exact Option.filter_some_pos (decide_eq_true hpos)

/-- Sorting keeps the order of the attributes that have one number. -/
theorem filter_numberedAttributes (name : String) (attributes : List InstanceAttribute) (n : Nat) :
    ((numberedAttributes name attributes).filter (·.1 == n)).map (·.2.2) =
      attributes.filter fun a => numberAfter? name a.name == some n := by
  have hperm := numberedAttributes_perm name attributes
  have hsorted : ((numberedAttributes name attributes).filter (·.1 == n)).Pairwise
      fun t t' => t.2.1 ≤ t'.2.1 := by
    refine ((sorted_numberedAttributes name attributes).filter _).imp_of_mem
      fun {t t'} ht ht' hbefore => ?_
    have hn : t.1 = n := by simpa using (List.mem_filter.mp ht).2
    have hn' : t'.1 = n := by simpa using (List.mem_filter.mp ht').2
    rw [numberedBefore_iff] at hbefore
    omega
  have hwritten : (numberedAttributes name attributes).filter (·.1 == n) =
      (numberedAsWritten name attributes).filter (·.1 == n) := by
    refine (hperm.filter _).eq_of_pairwise (fun t t' ht ht' hle hge => ?_) hsorted
      (((increasing_numberedAsWritten name attributes).filter _).imp Nat.le_of_lt)
    have hmem := List.mem_of_mem_filter ht
    have hmem' := hperm.mem_iff.mpr (List.mem_of_mem_filter ht')
    exact eq_of_mem_numberedAttributes hmem hmem' (Nat.le_antisymm hle hge)
  have hnumber : ∀ x : Nat × InstanceAttribute,
      (((numberAfter? name x.2.name).map fun m => (m, x.1, x.2)).filter (·.1 == n)).map (·.2.2) =
        Option.guard (fun a => numberAfter? name a.name == some n) x.2 := by
    rintro ⟨k, a⟩
    simp only [Option.guard]
    cases h : numberAfter? name a.name with
    | none => rfl
    | some m => by_cases hm : m = n <;> simp [hm]
  rw [hwritten, numberedAsWritten, List.filter_filterMap, List.map_filterMap,
    List.filterMap_congr fun x _ => hnumber x, ← List.filterMap_eq_filter]
  conv_rhs => rw [← map_snd_mapIdx attributes, List.filterMap_map]
  rfl

/-! ### Lists in order -/

section

variable {β : Type} {xs ys : List (Nat × β)}

theorem mem_iff_of_filter_eq (h : ∀ n, xs.filter (·.1 == n) = ys.filter (·.1 == n))
    (x : Nat × β) : x ∈ xs ↔ x ∈ ys := by
  have hfilter : ∀ zs : List (Nat × β), x ∈ zs ↔ x ∈ zs.filter (·.1 == x.1) := by
    simp [List.mem_filter]
  rw [hfilter xs, hfilter ys, h]

/-- Two lists in the order of their keys are equal if they have the same items of each key, in the
same order. -/
theorem eq_of_filter_eq (hxs : xs.Pairwise fun x y => x.1 ≤ y.1)
    (hys : ys.Pairwise fun x y => x.1 ≤ y.1)
    (h : ∀ n, xs.filter (·.1 == n) = ys.filter (·.1 == n)) : xs = ys := by
  induction xs generalizing ys with
  | nil =>
      refine (List.eq_nil_iff_forall_not_mem.mpr fun y hy => ?_).symm
      exact List.not_mem_nil ((mem_iff_of_filter_eq h y).mpr hy)
  | cons x xs ih =>
      have hmem := mem_iff_of_filter_eq h
      cases ys with
      | nil => exact absurd ((hmem x).mp List.mem_cons_self) List.not_mem_nil
      | cons y ys =>
          obtain ⟨hx, hxs'⟩ := List.pairwise_cons.mp hxs
          obtain ⟨hy, hys'⟩ := List.pairwise_cons.mp hys
          have hle : x.1 ≤ y.1 := by
            rcases List.mem_cons.mp ((hmem y).mpr List.mem_cons_self) with heq | hin
            · rw [heq]
            · exact hx y hin
          have hge : y.1 ≤ x.1 := by
            rcases List.mem_cons.mp ((hmem x).mp List.mem_cons_self) with heq | hin
            · rw [heq]
            · exact hy x hin
          have hfirst := h x.1
          simp only [List.filter_cons, beq_self_eq_true, Nat.le_antisymm hge hle, if_true] at hfirst
          obtain ⟨rfl, -⟩ := List.cons_eq_cons.mp hfirst
          refine congrArg (x :: ·) (ih hxs' hys' fun n => ?_)
          have hrest := h n
          simp only [List.filter_cons] at hrest
          split at hrest
          · exact (List.cons_eq_cons.mp hrest).2
          · exact hrest

end

end PatternMarkup
