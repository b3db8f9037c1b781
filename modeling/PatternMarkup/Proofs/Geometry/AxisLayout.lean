import Mathlib.Algebra.BigOperators.Group.List.Basic
import Mathlib.Algebra.Order.BigOperators.Group.List
import Mathlib.Data.List.Chain
import Mathlib.Tactic.LinearCombination
import PatternMarkup.Geometry.Slicing
import PatternMarkup.Proofs.Number.ExactNumbers
/-!
The layout of a cut axis. Its parts lie end to end from where it starts to exactly where it ends,
and none is turned over. A unit of every fixed part is drawn at the scale of the axis, a unit of
every proportional part at one rate that uses up what the fixed parts leave. Drawn shorter than its
fixed parts, the axis gives the others nothing.
-/

namespace PatternMarkup

variable {α : Type} [ExactNumber α]

/-! ### Rows of parts -/

/-- The second part comes right after the first one and is of the other kind. -/
structure AxisPart.Meets (a b : AxisPart α) : Prop where
  kind_eq : b.kind = a.kind.next
  low_eq : b.low = a.high

/-- Things whose parts lie end to end and alternate in kind. -/
structure IsRow {β : Type} (part : β → AxisPart α) (row : List β) : Prop where
  meets : row.IsChain fun a b => (part a).Meets (part b)
  low_le_high : ∀ b ∈ row, (part b).low ≤ (part b).high

namespace IsRow

variable {β : Type} {part : β → AxisPart α} {first second : β} {rest : List β}

theorem tail (h : IsRow part (first :: rest)) : IsRow part rest :=
  ⟨h.meets.tail, fun b hb => h.low_le_high b (List.mem_cons_of_mem first hb)⟩

theorem head_meets (h : IsRow part (first :: second :: rest)) : (part first).Meets (part second) :=
  (List.isChain_cons_cons.mp h.meets).1

theorem head_low_le (h : IsRow part (first :: rest)) : (part first).low ≤ (part first).high :=
  h.low_le_high first List.mem_cons_self

theorem pairwise_bounds (h : IsRow part (first :: rest)) :
    ((part first).low :: (first :: rest).map fun b => (part b).high).Pairwise (· ≤ ·) := by
  apply List.isChain_iff_pairwise.mp
  induction rest generalizing first with
  | nil => exact List.isChain_pair.mpr h.head_low_le
  | cons second rest ih =>
      have hlater := ih h.tail
      rw [h.head_meets.low_eq] at hlater
      exact hlater.cons_cons h.head_low_le

end IsRow

/-! ### Accepted cuts -/

namespace SliceValues

/-- Where the parts of an axis begin and end. -/
def bounds (values : SliceValues α) (axis : Axis) : List α :=
  Number.zero :: ((values.axis axis).2 ++ [(values.axis axis).1])

/-- An axis laid out from `start` over `length`. -/
def layout (values : SliceValues α) (axis : Axis) (start length : α) : AxisScaling α :=
  .compute (values.axis axis).1 (values.axis axis).2 start length

/-- Cuts that pass increase from the bound before them to the end of the axis. -/
theorem isChain_of_checkCuts {axis : Axis} {reference low : α} {index : Nat} {previous : Option α}
    {cuts : List α} (h : checkCuts axis reference index previous cuts = .ok ())
    (hlow : previous = some low ∨ previous = none ∧ low = Number.zero) (hless : low < reference) :
    (low :: (cuts ++ [reference])).IsChain (· < ·) := by
  induction cuts generalizing index previous low with
  | nil => exact List.isChain_pair.mpr hless
  | cons value rest ih =>
      unfold checkCuts at h
      split at h
      · next hinside =>
          obtain ⟨⟨-, hpositive⟩, hvalue⟩ : (Number.isFinite value = true ∧
              decide (Number.zero < value) = true) ∧ decide (value < reference) = true := by
            simpa only [Bool.and_eq_true] using hinside
          rcases hlow with rfl | ⟨rfl, rfl⟩
          · simp only at h
            split at h
            · cases h
            · next hmore =>
                exact (ih h (.inl rfl) (of_decide_eq_true hvalue)).cons_cons (not_le.mp hmore)
          · exact (ih h (.inl rfl) (of_decide_eq_true hvalue)).cons_cons
              (of_decide_eq_true hpositive)
      · cases h

theorem isChain_of_checkAxis {axis : Axis} {reference : α} {cuts : List α}
    (h : checkAxis axis reference cuts = .ok ()) :
    (Number.zero :: (cuts ++ [reference])).IsChain (· < ·) := by
  unfold checkAxis at h
  split at h
  · next hlength =>
      rw [Bool.and_eq_true] at hlength
      exact isChain_of_checkCuts h (.inr ⟨rfl, rfl⟩) (of_decide_eq_true hlength.2)
  · cases h

/-- The bounds of values that are accepted increase along both axes. -/
theorem isChain_bounds {reference : Size α} {xs ys : List α} {values : SliceValues α}
    (h : make reference xs ys = .ok values) (axis : Axis) :
    (values.bounds axis).IsChain (· < ·) := by
  unfold make at h
  cases hx : checkAxis .x reference.width xs with
  | error e =>
      rw [hx] at h
      cases h
  | ok _ =>
      cases hy : checkAxis .y reference.height ys with
      | error e =>
          rw [hx, hy] at h
          cases h
      | ok _ =>
          rw [hx, hy] at h
          cases h
          cases axis with
          | x => exact isChain_of_checkAxis hx
          | y => exact isChain_of_checkAxis hy

end SliceValues

/-! ### The parts of the reference -/

namespace AxisPart

/-- The parts of an axis in the reference; without cuts there is one that is proportional. -/
def ofCuts (reference : α) (cuts : List α) : List (AxisPart α) :=
  alternating (if cuts = [] then .proportional else .fixed) Number.zero (cuts ++ [reference])

/-- The length of all parts of a kind together, as a sum. -/
def measure (kind : SegmentKind) (parts : List (AxisPart α)) : α :=
  ((parts.filter fun part => part.kind = kind).map length).sum

theorem measure_cons (kind : SegmentKind) (part : AxisPart α) (parts : List (AxisPart α)) :
    measure kind (part :: parts) =
      (if part.kind = kind then part.length else 0) + measure kind parts := by
  unfold measure
  by_cases h : part.kind = kind
  · simp [h]
  · simp [h]

theorem total_eq_measure (kind : SegmentKind) (parts : List (AxisPart α)) :
    total kind parts = measure kind parts := by
  have hfold : ∀ sum : α, parts.foldl
      (fun sum part => if part.kind = kind then sum + part.length else sum) sum =
        sum + measure kind parts := by
    induction parts with
    | nil => simp [measure]
    | cons part parts ih =>
        intro sum
        rw [List.foldl_cons, ih, measure_cons]
        split
        · exact add_assoc ..
        · rw [zero_add]
  unfold total
  rw [hfold, ExactNumber.zero_eq, zero_add]

omit [ExactNumber α] in
theorem map_high_alternating (kind : SegmentKind) (low : α) (bounds : List α) :
    (alternating kind low bounds).map high = bounds := by
  induction bounds generalizing kind low with
  | nil => rfl
  | cons high rest ih => exact congrArg (high :: ·) (ih kind.next high)

/-- Between increasing bounds no part is a point. -/
theorem low_lt_high_alternating (kind : SegmentKind) {low : α} {bounds : List α}
    (h : (low :: bounds).IsChain (· < ·)) :
    ∀ part ∈ alternating kind low bounds, part.low < part.high := by
  induction bounds generalizing kind low with
  | nil => simp [alternating]
  | cons high rest ih =>
      intro part hpart
      rcases List.mem_cons.mp hpart with rfl | hrest
      · exact (List.isChain_cons_cons.mp h).1
      · exact ih kind.next h.tail part hrest

theorem isRow_alternating (kind : SegmentKind) {low : α} {bounds : List α}
    (h : (low :: bounds).IsChain (· < ·)) : IsRow id (alternating kind low bounds) := by
  refine ⟨?_, fun part hpart => (low_lt_high_alternating kind h part hpart).le⟩
  clear h
  induction bounds generalizing kind low with
  | nil => exact List.isChain_nil
  | cons high rest ih =>
      cases rest with
      | nil => exact List.isChain_singleton _
      | cons next rest => exact (ih kind.next).cons_cons ⟨rfl, rfl⟩

theorem measure_nonneg (kind : SegmentKind) {parts : List (AxisPart α)}
    (h : ∀ part ∈ parts, part.low ≤ part.high) : 0 ≤ measure kind parts := by
  apply List.sum_nonneg
  intro length hlength
  obtain ⟨part, hpart, rfl⟩ := List.mem_map.mp hlength
  exact sub_nonneg.mpr (h part (List.mem_of_mem_filter hpart))

variable {reference : α} {cuts : List α}

/-- An axis has something proportional, whatever its cuts. -/
theorem measure_proportional_pos (h : (Number.zero :: (cuts ++ [reference])).IsChain (· < ·)) :
    0 < measure .proportional (ofCuts reference cuts) := by
  cases cuts with
  | nil =>
      have hpositive : Number.zero < reference := List.isChain_pair.mp h
      simpa [ofCuts, measure, alternating, length] using hpositive
  | cons cut cuts =>
      have hlater := h.tail
      cases hbounds : cuts ++ [reference] with
      | nil => simp at hbounds
      | cons next rest =>
          rw [List.cons_append, hbounds] at hlater
          have hmore := low_lt_high_alternating .fixed hlater.tail
          have hrest : 0 ≤ measure .proportional (alternating .fixed next rest) :=
            measure_nonneg _ fun part hpart => (hmore part hpart).le
          have hnext : 0 < next - cut := sub_pos.mpr (List.isChain_cons_cons.mp hlater).1
          simp only [ofCuts, List.cons_ne_nil, if_false, List.cons_append, hbounds, alternating,
            SegmentKind.next, measure_cons, reduceCtorEq, if_true, length, zero_add]
          exact add_pos_of_pos_of_nonneg hnext hrest

theorem measure_fixed_pos (hcuts : cuts ≠ [])
    (h : (Number.zero :: (cuts ++ [reference])).IsChain (· < ·)) :
    0 < measure .fixed (ofCuts reference cuts) := by
  cases cuts with
  | nil => exact absurd rfl hcuts
  | cons cut cuts =>
      have hmore := low_lt_high_alternating .proportional h.tail
      have hrest : 0 ≤ measure .fixed (alternating .proportional cut (cuts ++ [reference])) :=
        measure_nonneg _ fun part hpart => (hmore part hpart).le
      have hfirst : 0 < cut - Number.zero := sub_pos.mpr (List.isChain_cons_cons.mp h).1
      have hsum : measure .fixed (ofCuts reference (cut :: cuts)) = (cut - Number.zero) +
          measure .fixed (alternating .proportional cut (cuts ++ [reference])) :=
        measure_cons .fixed ⟨.fixed, Number.zero, cut⟩ _
      rw [hsum]
      exact add_pos_of_pos_of_nonneg hfirst hrest

theorem measure_alternating (kind : SegmentKind) (low : α) (cuts : List α) (reference : α) :
    measure .fixed (alternating kind low (cuts ++ [reference])) +
      measure .proportional (alternating kind low (cuts ++ [reference])) = reference - low := by
  induction cuts generalizing kind low with
  | nil => cases kind <;> simp [measure, alternating, length]
  | cons cut cuts ih =>
      have hlater := ih kind.next cut
      rw [List.cons_append, alternating, measure_cons, measure_cons]
      cases kind with
      | fixed =>
          simp only [if_true, reduceCtorEq, if_false, length]
          linear_combination hlater
      | proportional =>
          simp only [if_true, reduceCtorEq, if_false, length]
          linear_combination hlater

/-- The parts of both kinds make up the whole axis. -/
theorem measure_ofCuts (reference : α) (cuts : List α) :
    measure .fixed (ofCuts reference cuts) + measure .proportional (ofCuts reference cuts) =
      reference := by
  rw [ofCuts, measure_alternating, ExactNumber.zero_eq, sub_zero]

end AxisPart

/-! ### Laying parts out -/

namespace AxisScaling

variable (len : AxisPart α → α)

theorem map_reference_layOut (cursor : α) (parts : List (AxisPart α)) :
    (layOut len cursor parts).map Segment.reference = parts := by
  induction parts generalizing cursor with
  | nil => rfl
  | cons part rest ih => exact congrArg (part :: ·) (ih (cursor + len part))

theorem drawn_length_of_mem_layOut {cursor : α} {parts : List (AxisPart α)} {t : Segment α}
    (ht : t ∈ layOut len cursor parts) : t.drawn.length = len t.reference := by
  induction parts generalizing cursor with
  | nil => cases ht
  | cons part rest ih =>
      rcases List.mem_cons.mp ht with rfl | hrest
      · exact add_sub_cancel_left cursor (len part)
      · exact ih hrest

/-- The last part ends where the lengths of all parts have been used up. -/
theorem getLast?_layOut (cursor : α) (parts : List (AxisPart α)) :
    (cursor :: (layOut len cursor parts).map (·.drawnHigh)).getLast? =
      some (cursor + (parts.map len).sum) := by
  induction parts generalizing cursor with
  | nil => simp [layOut]
  | cons part rest ih =>
      rw [List.map_cons, List.sum_cons, ← add_assoc, ← ih (cursor + len part)]
      exact List.getLast?_cons_cons

variable {len}

theorem isRow_reference_layOut {parts : List (AxisPart α)} (h : IsRow id parts) (cursor : α) :
    IsRow Segment.reference (layOut len cursor parts) := by
  rw [← map_reference_layOut len cursor parts] at h
  refine ⟨(List.isChain_map Segment.reference).mp h.meets, fun t ht => ?_⟩
  exact h.low_le_high t.reference (List.mem_map_of_mem ht)

theorem isRow_drawn_layOut {parts : List (AxisPart α)} (h : IsRow id parts)
    (hlen : ∀ part ∈ parts, 0 ≤ len part) (cursor : α) :
    IsRow Segment.drawn (layOut len cursor parts) := by
  constructor
  · induction parts generalizing cursor with
    | nil => exact List.isChain_nil
    | cons part rest ih =>
        cases rest with
        | nil => exact List.isChain_singleton _
        | cons next rest =>
            have hlater := ih h.tail (fun part hpart => hlen part (List.mem_cons_of_mem _ hpart))
            exact (hlater (cursor + len part)).cons_cons ⟨h.head_meets.kind_eq, rfl⟩
  · intro t ht
    have hpart : t.reference ∈ parts := by
      rw [← map_reference_layOut len cursor parts]
      exact List.mem_map_of_mem ht
    have hlength : 0 ≤ t.drawn.length := by
      rw [drawn_length_of_mem_layOut len ht]
      exact hlen t.reference hpart
    exact sub_nonneg.mp hlength

/-- How long a unit of the parts of a kind is drawn when the whole is drawn over a length. -/
def drawnRate (parts : List (AxisPart α)) (length : α) (kind : SegmentKind) : α :=
  if AxisPart.measure .fixed parts ≤ length then
    match kind with
    | .fixed => 1
    | .proportional =>
        (length - AxisPart.measure .fixed parts) / AxisPart.measure .proportional parts
  else
    match kind with
    | .fixed => length / AxisPart.measure .fixed parts
    | .proportional => 0

section Rates

variable {parts : List (AxisPart α)} {length : α}

theorem drawnRate_nonneg (h : ∀ part ∈ parts, part.low ≤ part.high) (hlength : 0 ≤ length)
    (kind : SegmentKind) : 0 ≤ drawnRate parts length kind := by
  have hfixed := AxisPart.measure_nonneg .fixed h
  have hweight := AxisPart.measure_nonneg .proportional h
  unfold drawnRate
  split
  · next henough =>
      cases kind with
      | fixed => exact zero_le_one
      | proportional => exact div_nonneg (sub_nonneg.mpr henough) hweight
  · cases kind with
    | fixed => exact div_nonneg hlength hfixed
    | proportional => exact le_rfl

theorem sum_lengths_mul (rate : SegmentKind → α) (parts : List (AxisPart α)) :
    (parts.map fun part => part.length * rate part.kind).sum =
      AxisPart.measure .fixed parts * rate .fixed +
        AxisPart.measure .proportional parts * rate .proportional := by
  induction parts with
  | nil => simp [AxisPart.measure]
  | cons part rest ih =>
      rw [List.map_cons, List.sum_cons, ih, AxisPart.measure_cons, AxisPart.measure_cons]
      cases hkind : part.kind with
      | fixed =>
          simp only [if_true, reduceCtorEq, if_false]
          ring
      | proportional =>
          simp only [if_true, reduceCtorEq, if_false]
          ring

/-- The parts use up the length. -/
theorem sum_drawnRate (hlength : 0 ≤ length) (hweight : 0 < AxisPart.measure .proportional parts) :
    (parts.map fun part => part.length * drawnRate parts length part.kind).sum = length := by
  rw [sum_lengths_mul]
  unfold drawnRate
  split
  · simp only
    rw [mul_one, mul_div_cancel₀ _ hweight.ne', add_sub_cancel]
  · next hshort =>
      have hfixed : AxisPart.measure .fixed parts ≠ 0 :=
        (hlength.trans_lt (not_le.mp hshort)).ne'
      simp only
      rw [mul_zero, add_zero, mul_div_cancel₀ _ hfixed]

end Rates

variable {reference : α} {cuts : List α} {length : α}

theorem fixedScale_eq (parts : List (AxisPart α)) (hlength : 0 ≤ length) :
    fixedScale (AxisPart.measure .fixed parts) length = drawnRate parts length .fixed := by
  have hiff : AxisPart.measure .fixed parts ≤ length ∨ AxisPart.measure .fixed parts ≤ 0 ↔
      AxisPart.measure .fixed parts ≤ length :=
    or_iff_left_of_imp fun hnone => hnone.trans hlength
  unfold fixedScale drawnRate
  simp only [ExactNumber.zero_eq, ExactNumber.one_eq, hiff]

/-- What the fixed parts leave goes to the proportional ones. -/
theorem remainder_div (parts : List (AxisPart α)) (hlength : 0 ≤ length) :
    Number.positivePart (length - AxisPart.measure .fixed parts * drawnRate parts length .fixed) /
      AxisPart.measure .proportional parts = drawnRate parts length .proportional := by
  unfold drawnRate
  split
  · next henough =>
      simp only
      rw [mul_one, ExactNumber.positivePart_of_nonneg (sub_nonneg.mpr henough)]
  · next hshort =>
      have hfixed : AxisPart.measure .fixed parts ≠ 0 :=
        (hlength.trans_lt (not_le.mp hshort)).ne'
      simp only
      rw [mul_div_cancel₀ _ hfixed, sub_self, ExactNumber.positivePart_of_nonneg le_rfl, zero_div]

theorem drawnLength_eq {parts : List (AxisPart α)} (hlength : 0 ≤ length)
    (hweight : 0 < AxisPart.measure .proportional parts) :
    drawnLength (drawnRate parts length .fixed)
        (Number.positivePart
          (length - AxisPart.measure .fixed parts * drawnRate parts length .fixed))
        (AxisPart.measure .proportional parts) =
      fun part => part.length * drawnRate parts length part.kind := by
  funext part
  unfold drawnLength
  cases part.kind with
  | fixed => rfl
  | proportional =>
      simp only [ExactNumber.zero_eq, if_pos hweight]
      rw [← remainder_div parts hlength, mul_comm, mul_div_assoc]

theorem scale_compute (reference : α) (hcuts : cuts ≠ []) (start : α) (hlength : 0 ≤ length) :
    (compute reference cuts start length).scale =
      drawnRate (AxisPart.ofCuts reference cuts) length .fixed := by
  cases cuts with
  | nil => exact absurd rfl hcuts
  | cons cut cuts =>
      rw [← fixedScale_eq _ hlength, ← AxisPart.total_eq_measure]
      unfold compute
      rw [ExactNumber.positivePart_of_nonneg hlength]
      rfl

/-- With or without cuts, the parts of an axis are laid out one after another at two rates. -/
theorem segments_compute (h : (Number.zero :: (cuts ++ [reference])).IsChain (· < ·))
    (start : α) (hlength : 0 ≤ length) :
    (compute reference cuts start length).segments =
      layOut (fun part => part.length *
        drawnRate (AxisPart.ofCuts reference cuts) length part.kind) start
        (AxisPart.ofCuts reference cuts) := by
  have hweight := AxisPart.measure_proportional_pos h
  cases cuts with
  | nil =>
      have hsum := sum_drawnRate hlength hweight
      simp only [AxisPart.ofCuts, if_true, List.nil_append, AxisPart.alternating, List.map_cons,
        List.map_nil, List.sum_cons, List.sum_nil, add_zero] at hsum
      unfold compute
      rw [ExactNumber.positivePart_of_nonneg hlength]
      simp only [AxisPart.ofCuts, if_true, List.nil_append, AxisPart.alternating, layOut, hsum]
      rfl
  | cons cut cuts =>
      have hrow : AxisPart.ofCuts reference (cut :: cuts) =
          ⟨.fixed, Number.zero, cut⟩ ::
            AxisPart.alternating .proportional cut (cuts ++ [reference]) := rfl
      unfold compute segments
      rw [ExactNumber.positivePart_of_nonneg hlength]
      simp only [← hrow, AxisPart.total_eq_measure, fixedScale_eq _ hlength,
        drawnLength_eq hlength hweight]
      rfl

/-! ### The whole layout -/

/-- The parts of an axis lie end to end, in the reference and as drawn. In the reference none of
them is a point. -/
structure IsLaidOut (s : AxisScaling α) : Prop where
  reference : IsRow Segment.reference s.segments
  drawn : IsRow Segment.drawn s.segments
  low_lt_high : ∀ t ∈ s.segments, t.low < t.high

/-- The length of all parts of a kind together in the reference. -/
def measure (s : AxisScaling α) (kind : SegmentKind) : α :=
  AxisPart.measure kind (s.segments.map Segment.reference)

/-- The layout fits an axis with the given length and cuts into a length from `start` on. -/
structure Fits (s : AxisScaling α) (reference : α) (cuts : List α) (start length : α) : Prop where
  isLaidOut : s.IsLaidOut
  first_kind : s.first.kind = if cuts = [] then .proportional else .fixed
  referenceBounds_eq : s.referenceBounds = 0 :: (cuts ++ [reference])
  drawnBounds_ordered : s.drawnBounds.Pairwise (· ≤ ·)
  drawnBounds_start : s.drawnBounds.head? = some start
  drawnBounds_stop : s.drawnBounds.getLast? = some (start + length)
  fixed : ∀ t ∈ s.segments, t.kind = .fixed → t.drawn.length = s.scale * t.reference.length
  scale_bounds : cuts ≠ [] → 0 ≤ s.scale ∧ s.scale ≤ 1
  /-- There is room for all fixed parts: the others share what is left. -/
  wide : s.measure .fixed ≤ length →
    (cuts ≠ [] → s.scale = 1) ∧ ∀ t ∈ s.segments, t.kind = .proportional → t.drawn.length =
      (length - s.measure .fixed) * (t.reference.length / s.measure .proportional)
  /-- There is not: nothing is left to share. -/
  narrow : cuts ≠ [] → length < s.measure .fixed →
    s.scale = length / s.measure .fixed ∧
      ∀ t ∈ s.segments, t.kind = .proportional → t.drawn.length = 0

theorem first_compute (reference : α) (cuts : List α) (start length : α) :
    (compute reference cuts start length).first.kind =
        (if cuts = [] then .proportional else .fixed) ∧
      (compute reference cuts start length).first.drawnLow = start := by
  cases cuts with
  | nil => exact ⟨rfl, rfl⟩
  | cons cut cuts => exact ⟨rfl, rfl⟩

section Layout

variable (h : (Number.zero :: (cuts ++ [reference])).IsChain (· < ·)) (start : α)
  (hlength : 0 ≤ length)
include h hlength

theorem map_reference_compute :
    (compute reference cuts start length).segments.map Segment.reference =
      AxisPart.ofCuts reference cuts := by
  rw [segments_compute h start hlength]
  exact map_reference_layOut _ start _

theorem measure_compute (kind : SegmentKind) :
    (compute reference cuts start length).measure kind =
      AxisPart.measure kind (AxisPart.ofCuts reference cuts) :=
  congrArg (AxisPart.measure kind) (map_reference_compute h start hlength)

theorem drawn_length_of_mem_compute {t : Segment α}
    (ht : t ∈ (compute reference cuts start length).segments) :
    t.drawn.length =
      t.reference.length * drawnRate (AxisPart.ofCuts reference cuts) length t.kind := by
  rw [segments_compute h start hlength] at ht
  exact drawn_length_of_mem_layOut _ ht

theorem isLaidOut_compute : (compute reference cuts start length).IsLaidOut := by
  have hrow : IsRow id (AxisPart.ofCuts reference cuts) := AxisPart.isRow_alternating _ h
  have hless := AxisPart.low_lt_high_alternating (if cuts = [] then .proportional else .fixed) h
  have hrate := drawnRate_nonneg (fun part hpart => (hless part hpart).le) hlength
  constructor
  · rw [segments_compute h start hlength]
    exact isRow_reference_layOut hrow start
  · rw [segments_compute h start hlength]
    apply isRow_drawn_layOut hrow
    intro part hpart
    exact mul_nonneg (sub_nonneg.mpr (hless part hpart).le) (hrate part.kind)
  · intro t ht
    apply hless t.reference
    show t.reference ∈ AxisPart.ofCuts reference cuts
    rw [← map_reference_compute h start hlength]
    exact List.mem_map_of_mem ht

theorem referenceBounds_compute :
    (compute reference cuts start length).referenceBounds =
      Number.zero :: (cuts ++ [reference]) := by
  have hparts := map_reference_compute h start hlength
  have hhigh := congrArg (List.map AxisPart.high) hparts
  rw [List.map_map, AxisPart.ofCuts, AxisPart.map_high_alternating] at hhigh
  have hlow : (compute reference cuts start length).first.low = Number.zero := by
    cases cuts <;> exact congrArg AxisPart.low (List.cons_eq_cons.mp hparts).1
  exact List.cons_eq_cons.mpr ⟨hlow, hhigh⟩

theorem getLast?_drawnBounds_compute :
    (compute reference cuts start length).drawnBounds.getLast? = some (start + length) := by
  unfold drawnBounds
  rw [(first_compute reference cuts start length).2, segments_compute h start hlength,
    getLast?_layOut, sum_drawnRate hlength (AxisPart.measure_proportional_pos h)]

/-- The layout of an axis is what it has to be. -/
theorem fits_compute : (compute reference cuts start length).Fits reference cuts start length := by
  have hlaid := isLaidOut_compute h start hlength
  have hfirst := first_compute reference cuts start length
  have hdrawn := fun t => drawn_length_of_mem_compute h start hlength (t := t)
  have hmeasure := measure_compute h start hlength
  have hscale := fun hcuts : cuts ≠ [] => scale_compute reference hcuts start hlength
  refine
    { isLaidOut := hlaid
      first_kind := hfirst.1
      referenceBounds_eq := ?_
      drawnBounds_ordered := hlaid.drawn.pairwise_bounds
      drawnBounds_start := congrArg some hfirst.2
      drawnBounds_stop := getLast?_drawnBounds_compute h start hlength
      fixed := ?_
      scale_bounds := ?_
      wide := ?_
      narrow := ?_ }
  · rw [referenceBounds_compute h start hlength, ExactNumber.zero_eq]
  · intro t ht hkind
    have hcuts : cuts ≠ [] := by
      rintro rfl
      obtain rfl := List.mem_singleton.mp ht
      cases hkind
    rw [hdrawn t ht, hkind, hscale hcuts, mul_comm]
  · intro hcuts
    have hrow : ∀ part ∈ AxisPart.ofCuts reference cuts, part.low ≤ part.high := by
      intro part hpart
      exact (AxisPart.isRow_alternating _ h).low_le_high part hpart
    rw [hscale hcuts]
    refine ⟨drawnRate_nonneg hrow hlength .fixed, ?_⟩
    unfold drawnRate
    split
    · exact le_rfl
    · next hshort =>
        have hless := not_le.mp hshort
        exact (div_le_one (hlength.trans_lt hless)).mpr hless.le
  · intro hwide
    rw [hmeasure] at hwide
    rw [hmeasure, hmeasure]
    constructor
    · intro hcuts
      rw [hscale hcuts]
      unfold drawnRate
      rw [if_pos hwide]
    · intro t ht hkind
      rw [hdrawn t ht, hkind]
      unfold drawnRate
      rw [if_pos hwide]
      exact mul_div_left_comm ..
  · intro hcuts hnarrow
    rw [hmeasure] at hnarrow
    rw [hscale hcuts, hmeasure]
    constructor
    · unfold drawnRate
      rw [if_neg hnarrow.not_ge]
    · intro t ht hkind
      rw [hdrawn t ht, hkind]
      unfold drawnRate
      rw [if_neg hnarrow.not_ge]
      exact mul_zero _

end Layout

end AxisScaling

/-- An axis of accepted values fits every length that it is laid out over: the drawn bounds go in
order from `start` to `start + length`, fixed parts are drawn at the scale of the axis, and the
others share what is left. -/
theorem SliceValues.layout_fits {size : Size α} {xs ys : List α} {values : SliceValues α}
    (hvalues : SliceValues.make size xs ys = .ok values) (axis : Axis) (start : α) {length : α}
    (hlength : 0 ≤ length) :
    (values.layout axis start length).Fits (values.axis axis).1 (values.axis axis).2 start length :=
  AxisScaling.fits_compute (SliceValues.isChain_bounds hvalues axis) start hlength

section Rational

attribute [local instance] ExactNumber.rational

/-- Three cuts, and room for no more than four fifths of the fixed parts. -/
theorem SliceValues.layout_fits_narrow :
    SliceValues.make (⟨100, 60⟩ : Size ℚ) [10, 90] [5, 25, 35] =
        .ok ⟨⟨100, 60⟩, [10, 90], [5, 25, 35]⟩ ∧ (0 : ℚ) ≤ 12 ∧
      (SliceValues.layout (⟨⟨100, 60⟩, [10, 90], [5, 25, 35]⟩ : SliceValues ℚ) .y 3 12).Fits
        60 [5, 25, 35] 3 12 := by
  have hvalues : SliceValues.make (⟨100, 60⟩ : Size ℚ) [10, 90] [5, 25, 35] =
      .ok ⟨⟨100, 60⟩, [10, 90], [5, 25, 35]⟩ := rfl
  have hlength : (0 : ℚ) ≤ 12 := by decide +kernel
  exact ⟨hvalues, hlength, SliceValues.layout_fits hvalues .y 3 hlength⟩

end Rational

end PatternMarkup
