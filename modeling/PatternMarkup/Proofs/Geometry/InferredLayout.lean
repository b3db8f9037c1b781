import Mathlib.Tactic.Linarith
import PatternMarkup.Geometry.SliceInference
import PatternMarkup.Proofs.Formula.GrammarReading
import PatternMarkup.Proofs.Geometry.AxisMapping
/-!
Inference undoes the layout. A coordinate is drawn as far from the start as the fixed and the
proportional lengths before it say, each at its rate; from what lies between two coordinates and how
long that is drawn, the length of the axis follows. The range is then drawn where it was asked for,
up to the tolerance, unless the length asked for falls short of the fixed parts of the range by less
than the tolerance: the proportional share is then made to shrink below nothing.
-/

namespace PatternMarkup

variable {α : Type} [ExactNumber α]

open AxisScaling
open FormulaParser (exists_of_bind_eq_ok)

/-! ### Where a coordinate is drawn -/

section Rates

variable (rate : SegmentKind → α) {p : α}

/-- Lengths of two kinds, drawn at two rates. -/
def ratedLength (lengths : α × α) : α := lengths.1 * rate .fixed + lengths.2 * rate .proportional

theorem ratedLength_zero : ratedLength rate (Number.zero, Number.zero) = 0 := by
  unfold ratedLength
  rw [ExactNumber.zero_eq, zero_mul, zero_mul, add_zero]

theorem ratedLength_take (fixed weight : α) (part : AxisPart α) (length : α) :
    ratedLength rate (lengthsBefore.take fixed weight part length) =
      ratedLength rate (fixed, weight) + length * rate part.kind := by
  unfold ratedLength lengthsBefore.take
  cases part.kind with
  | fixed =>
      simp only
      ring
  | proportional =>
      simp only
      ring

/-- The part as it is drawn at a rate from the coordinate `cursor` on. -/
def drawnFrom (cursor : α) (part : AxisPart α) : Segment α :=
  ⟨part.kind, part.low, part.high, cursor, cursor + part.length * rate part.kind⟩

theorem mapLinear_drawnFrom {part : AxisPart α} (hlong : Number.epsilon < part.length)
    (cursor p : α) :
    (drawnFrom rate cursor part).reference.mapLinear (drawnFrom rate cursor part).drawn p =
      cursor + (p - part.low) * rate part.kind := by
  have hlength := (AxisPart.length_pos_of_long hlong).ne'
  have hdrawn : (drawnFrom rate cursor part).drawn.length = part.length * rate part.kind :=
    add_sub_cancel_left cursor _
  calc (drawnFrom rate cursor part).reference.mapLinear (drawnFrom rate cursor part).drawn p
      = cursor + (p - part.low) * (drawnFrom rate cursor part).drawn.length / part.length :=
        AxisPart.mapLinear_of_long part _ hlong p
    _ = cursor + (p - part.low) * rate part.kind := by
        rw [hdrawn, mul_left_comm, mul_div_cancel_left₀ _ hlength]

/-- What lies before a coordinate is drawn at two rates. -/
theorem mapThrough_layOut {part : AxisPart α} {rest : List (AxisPart α)}
    (hlong : Number.epsilon < (locate id p part rest).length) (cursor fixed weight : α) :
    mapThrough Segment.reference Segment.drawn (drawnFrom rate cursor part)
        (layOut (fun part => part.length * rate part.kind)
          (cursor + part.length * rate part.kind) rest) p + ratedLength rate (fixed, weight) =
      cursor + ratedLength rate (lengthsBefore p fixed weight part rest) := by
  induction rest generalizing part cursor fixed weight with
  | nil =>
      change Number.epsilon < part.length at hlong
      have hplace := mapLinear_drawnFrom rate hlong cursor p
      rw [lengthsBefore, ratedLength_take, layOut, mapThrough_nil]
      linear_combination hplace
  | cons second rest ih =>
      cases hreaches : part.reaches p with
      | true =>
          have hlocate : locate id p part (second :: rest) = part := locate_first hreaches
          rw [hlocate] at hlong
          have hplace := mapLinear_drawnFrom rate hlong cursor p
          rw [lengthsBefore, if_pos hreaches, ratedLength_take, layOut,
            mapThrough_of_reaches _ _ _ hreaches]
          linear_combination hplace
      | false =>
          have hlocate : locate id p part (second :: rest) = locate id p second rest :=
            locate_of_not_reaches second rest hreaches
          rw [hlocate] at hlong
          have hlater := ih hlong (cursor + part.length * rate part.kind)
            (lengthsBefore.take fixed weight part part.length).1
            (lengthsBefore.take fixed weight part part.length).2
          rw [Prod.mk.eta, ratedLength_take] at hlater
          rw [lengthsBefore, hreaches, if_neg Bool.false_ne_true, layOut,
            mapThrough_of_not_reaches _ _ _ hreaches]
          unfold drawnFrom at hlater
          linear_combination hlater

end Rates

/-! ### Ranges of an axis -/

namespace SliceValues

variable (values : SliceValues α) (axis : Axis)

/-- The first part of an axis in the reference, and the parts after it. -/
def parts : AxisPart α × List (AxisPart α) :=
  match (values.axis axis).2 with
  | [] => (⟨.proportional, Number.zero, (values.axis axis).1⟩, [])
  | cut :: cuts =>
      (⟨.fixed, Number.zero, cut⟩,
        AxisPart.alternating .proportional cut (cuts ++ [(values.axis axis).1]))

theorem cons_parts :
    (values.parts axis).1 :: (values.parts axis).2 =
      AxisPart.ofCuts (values.axis axis).1 (values.axis axis).2 := by
  unfold parts
  cases (values.axis axis).2 with
  | nil => rfl
  | cons cut cuts => rfl

/-- The length of all parts of a kind together. -/
def measure (kind : SegmentKind) : α :=
  AxisPart.measure kind (AxisPart.ofCuts (values.axis axis).1 (values.axis axis).2)

/-- The part that a coordinate belongs to. -/
def partAt (p : α) : AxisPart α := locate id p (values.parts axis).1 (values.parts axis).2

/-- The fixed and the proportional lengths before a coordinate. -/
def lengthsAt (p : α) : α × α :=
  lengthsBefore p Number.zero Number.zero (values.parts axis).1 (values.parts axis).2

/-- The fixed length between two coordinates. -/
def fixedBetween (p₁ p₂ : α) : α := (values.lengthsAt axis p₂).1 - (values.lengthsAt axis p₁).1

/-- The proportional length between two coordinates. -/
def weightBetween (p₁ p₂ : α) : α := (values.lengthsAt axis p₂).2 - (values.lengthsAt axis p₁).2

/-- What lies between two coordinates of all that is proportional, as a fraction. -/
def shareBetween (p₁ p₂ : α) : α :=
  values.weightBetween axis p₁ p₂ / values.measure axis .proportional

/-- How long a unit of the parts of a kind is drawn, when the axis is drawn over a length. -/
def rate (length : α) : SegmentKind → α :=
  drawnRate (AxisPart.ofCuts (values.axis axis).1 (values.axis axis).2) length

/-- How long the range between two coordinates is drawn, when the axis is drawn over a length. -/
def drawnBetween (p₁ p₂ length : α) : α :=
  ratedLength (values.rate axis length)
    (values.fixedBetween axis p₁ p₂, values.weightBetween axis p₁ p₂)

variable {values axis} {p p₁ p₂ : α} {start length : α}

theorem transform_layout (h : (values.bounds axis).IsChain (· < ·)) (start : α)
    (hlength : 0 ≤ length) (hlong : Number.epsilon < (values.partAt axis p).length) :
    (values.layout axis start length).transform p =
      start + ratedLength (values.rate axis length) (values.lengthsAt axis p) := by
  have hsegments := segments_compute h start hlength
  rw [← values.cons_parts axis] at hsegments
  obtain ⟨hfirst, hrest⟩ :
      (values.layout axis start length).first =
          drawnFrom (values.rate axis length) start (values.parts axis).1 ∧
        (values.layout axis start length).rest =
          layOut (fun part => part.length * values.rate axis length part.kind)
            (start + (values.parts axis).1.length *
              values.rate axis length (values.parts axis).1.kind) (values.parts axis).2 := by
    unfold rate
    rw [← values.cons_parts axis]
    exact List.cons_eq_cons.mp hsegments
  have hplace := mapThrough_layOut (values.rate axis length) hlong start Number.zero Number.zero
  rw [ratedLength_zero, add_zero] at hplace
  rw [transform_eq, hfirst, hrest]
  exact hplace

theorem transform_sub_transform (h : (values.bounds axis).IsChain (· < ·)) (start : α)
    (hlength : 0 ≤ length) (hlow : Number.epsilon < (values.partAt axis p₁).length)
    (hhigh : Number.epsilon < (values.partAt axis p₂).length) :
    (values.layout axis start length).transform p₂ -
        (values.layout axis start length).transform p₁ = values.drawnBetween axis p₁ p₂ length := by
  rw [transform_layout h start hlength hlow, transform_layout h start hlength hhigh]
  unfold drawnBetween ratedLength fixedBetween weightBetween
  ring

/-- With room for all fixed parts, a range takes its share of what they leave. -/
theorem drawnBetween_wide (hwide : values.measure axis .fixed ≤ length) :
    values.drawnBetween axis p₁ p₂ length = values.fixedBetween axis p₁ p₂ +
      values.shareBetween axis p₁ p₂ * (length - values.measure axis .fixed) := by
  unfold measure at hwide
  unfold drawnBetween ratedLength rate drawnRate shareBetween measure
  simp only [if_pos hwide]
  ring

/-- Without, its fixed parts shrink with all others and the rest of it is gone. -/
theorem drawnBetween_narrow (hnarrow : length < values.measure axis .fixed) :
    values.drawnBetween axis p₁ p₂ length =
      values.fixedBetween axis p₁ p₂ * (length / values.measure axis .fixed) := by
  unfold measure at hnarrow
  unfold drawnBetween ratedLength rate drawnRate measure
  simp only [if_neg hnarrow.not_ge]
  rw [mul_zero, add_zero]

/-! ### The length of the axis -/

/-- From a proportional share the length is found exactly, if the range is drawn no shorter than its
fixed parts. -/
theorem drawnBetween_of_share (hfixed : values.fixedBetween axis p₁ p₂ ≤ drawn)
    (hshare : 0 < values.shareBetween axis p₁ p₂) :
    values.drawnBetween axis p₁ p₂ (values.measure axis .fixed +
      (drawn - values.fixedBetween axis p₁ p₂) / values.shareBetween axis p₁ p₂) = drawn := by
  have hmore : 0 ≤ (drawn - values.fixedBetween axis p₁ p₂) / values.shareBetween axis p₁ p₂ :=
    div_nonneg (sub_nonneg.mpr hfixed) hshare.le
  rw [drawnBetween_wide (le_add_of_nonneg_right hmore), add_sub_cancel_left,
    mul_div_cancel₀ _ hshare.ne', add_sub_cancel]

/-- If it is drawn shorter, the axis ends below its fixed parts, and what is missing is taken off
them again at the weight of the share. -/
theorem drawnBetween_of_shortfall (htotal : 0 < values.measure axis .fixed)
    (hfixed : drawn < values.fixedBetween axis p₁ p₂)
    (hshare : 0 < values.shareBetween axis p₁ p₂) :
    values.drawnBetween axis p₁ p₂ (values.measure axis .fixed +
        (drawn - values.fixedBetween axis p₁ p₂) / values.shareBetween axis p₁ p₂) =
      values.fixedBetween axis p₁ p₂ -
        (values.fixedBetween axis p₁ p₂ - drawn) * values.fixedBetween axis p₁ p₂ /
          (values.measure axis .fixed * values.shareBetween axis p₁ p₂) := by
  have hless : (drawn - values.fixedBetween axis p₁ p₂) / values.shareBetween axis p₁ p₂ < 0 :=
    div_neg_of_neg_of_pos (sub_neg.mpr hfixed) hshare
  have htotal' := htotal.ne'
  have hshare' := hshare.ne'
  rw [drawnBetween_narrow (add_lt_of_neg_right _ hless)]
  field_simp
  ring

/-- Drawn shorter than its fixed parts, a range determines the scale. -/
theorem drawnBetween_of_scale (htotal : 0 < values.measure axis .fixed) (hdrawn : 0 ≤ drawn)
    (hfixed : drawn < values.fixedBetween axis p₁ p₂) :
    values.drawnBetween axis p₁ p₂
      (values.measure axis .fixed * drawn / values.fixedBetween axis p₁ p₂) = drawn := by
  have hpositive : 0 < values.fixedBetween axis p₁ p₂ := hdrawn.trans_lt hfixed
  have hless : values.measure axis .fixed * drawn / values.fixedBetween axis p₁ p₂ <
      values.measure axis .fixed :=
    (div_lt_iff₀ hpositive).mpr (mul_lt_mul_of_pos_left hfixed htotal)
  rw [drawnBetween_narrow hless]
  field_simp

theorem fixed_add_proportional (values : SliceValues α) (axis : Axis) :
    values.measure axis .fixed + values.measure axis .proportional = (values.axis axis).1 :=
  AxisPart.measure_ofCuts (values.axis axis).1 (values.axis axis).2

/-- At its natural length a range is drawn as it is. -/
theorem drawnBetween_natural (h : (values.bounds axis).IsChain (· < ·)) :
    values.drawnBetween axis p₁ p₂ (values.axis axis).1 =
      values.fixedBetween axis p₁ p₂ + values.weightBetween axis p₁ p₂ := by
  have hweight : 0 < values.measure axis .proportional := AxisPart.measure_proportional_pos h
  have hwhole := values.fixed_add_proportional axis
  have hroom : values.measure axis .fixed ≤ (values.axis axis).1 :=
    (le_add_of_nonneg_right hweight.le).trans hwhole.le
  rw [drawnBetween_wide hroom, ← eq_sub_of_add_eq' hwhole, shareBetween,
    div_mul_cancel₀ _ hweight.ne']

end SliceValues

theorem sliceTolerance_eq : (sliceTolerance : α) = 1 / 10 ^ 9 := by
  unfold sliceTolerance
  rw [ExactNumber.ofDecimal_eq, Nat.cast_one, one_mul, one_div, zpow_neg]
  exact congrArg _ (zpow_natCast 10 9)

/-- A length is inferred from the proportional share, from the reference, or from the scale. -/
theorem inferLength_cases {axis : Axis} {reference fixedTotal fixed share drawn length : α}
    (h : inferLength axis reference fixedTotal fixed share drawn = .ok length) :
    (fixed ≤ drawn + sliceTolerance ∧ Number.epsilon < share ∧
        length = fixedTotal + (drawn - fixed) / share) ∨
      (share ≤ Number.epsilon ∧ |drawn - fixed| ≤ sliceTolerance ∧
        length = max reference fixedTotal) ∨
      (drawn + sliceTolerance < fixed ∧ length = fixedTotal * drawn / fixed) := by
  unfold inferLength at h
  split at h
  · next henough =>
      split at h
      · next hshare =>
          cases h
          exact .inl ⟨henough, hshare, rfl⟩
      · next hslight =>
          split at h
          · next hnear =>
              cases h
              rw [ExactNumber.abs_eq] at hnear
              exact .inr (.inl ⟨not_lt.mp hslight, hnear, ExactNumber.max_eq _ _⟩)
          · cases h
  · next hshort =>
      split at h
      · cases h
        exact .inr (.inr ⟨not_le.mp hshort, rfl⟩)
      · cases h

theorem inferStretched_eq_ok {axis : Axis} {reference p₁ p₂ q₁ q₂ start length : α}
    (h : inferStretched axis reference p₁ p₂ q₁ q₂ = .ok (start, length)) :
    Number.epsilon < |p₂ - p₁| ∧ 0 ≤ length ∧
      length = (q₂ - q₁) * reference / (p₂ - p₁) ∧ start = q₁ - p₁ * length / reference := by
  unfold inferStretched at h
  simp only [ExactNumber.abs_eq, ExactNumber.zero_eq] at h
  split at h
  · cases h
  · next hlong =>
      split at h
      · cases h
      · next hpositive =>
          cases h
          exact ⟨not_le.mp hlong, not_lt.mp hpositive, rfl, rfl⟩

namespace SliceValues

/-- An axis can be found from the range between two coordinates and the length it is drawn over.
Neither coordinate belongs to a part that counts as a point. Where the range is drawn shorter than
its fixed parts, but not by more than the tolerance, what is missing is little for its proportional
share. Where this share counts as nothing, its length does too. -/
structure IsWellPosed (values : SliceValues α) (axis : Axis) (p₁ p₂ drawn : α) : Prop where
  low_long : Number.epsilon < (values.partAt axis p₁).length
  high_long : Number.epsilon < (values.partAt axis p₂).length
  shortfall : (values.axis axis).2 ≠ [] → Number.epsilon < values.shareBetween axis p₁ p₂ →
    drawn < values.fixedBetween axis p₁ p₂ →
    values.fixedBetween axis p₁ p₂ ≤ drawn + sliceTolerance →
      values.fixedBetween axis p₁ p₂ - drawn ≤
          values.measure axis .fixed * values.shareBetween axis p₁ p₂ ∧
        (values.fixedBetween axis p₁ p₂ - drawn) * values.fixedBetween axis p₁ p₂ ≤
          1 / 10 ^ 6 * (values.measure axis .fixed * values.shareBetween axis p₁ p₂)
  slight : (values.axis axis).2 ≠ [] → values.shareBetween axis p₁ p₂ ≤ Number.epsilon →
    |values.weightBetween axis p₁ p₂| ≤ 1 / 10 ^ 6 - sliceTolerance

variable {values : SliceValues α} {axis : Axis} {p p₁ p₂ q₁ q₂ drawn start length : α}

/-- Over the length that is inferred, the range is drawn as long as asked for. -/
theorem drawnBetween_inferLength (h : (values.bounds axis).IsChain (· < ·))
    (hcuts : (values.axis axis).2 ≠ []) (hposed : values.IsWellPosed axis p₁ p₂ drawn)
    (hdrawn : 0 ≤ drawn)
    (hlength : inferLength axis (values.axis axis).1 (values.measure axis .fixed)
      (values.fixedBetween axis p₁ p₂) (values.shareBetween axis p₁ p₂) drawn = .ok length) :
    0 ≤ length ∧ |values.drawnBetween axis p₁ p₂ length - drawn| ≤ 1 / 10 ^ 6 := by
  have htotal : 0 < values.measure axis .fixed := AxisPart.measure_fixed_pos hcuts h
  have hnear : |drawn - drawn| ≤ 1 / 10 ^ 6 := by
    rw [sub_self, abs_zero]
    positivity
  rcases inferLength_cases hlength with ⟨htolerated, hlong, rfl⟩ | ⟨hslight, hclose, rfl⟩ |
    ⟨hshort, rfl⟩
  · have hshare : 0 < values.shareBetween axis p₁ p₂ := ExactNumber.epsilon_pos.trans hlong
    rcases le_or_gt (values.fixedBetween axis p₁ p₂) drawn with hfixed | hfixed
    · constructor
      · exact add_nonneg htotal.le (div_nonneg (sub_nonneg.mpr hfixed) hshare.le)
      · rwa [drawnBetween_of_share hfixed hshare]
    · obtain ⟨hroom, hsmall⟩ := hposed.shortfall hcuts hlong hfixed htolerated
      have hpositive := mul_pos htotal hshare
      have hlost := div_nonneg (mul_nonneg (sub_nonneg.mpr hfixed.le) (hdrawn.trans hfixed.le))
        hpositive.le
      have hbound := (div_le_iff₀ hpositive).mpr hsmall
      have hrest : (values.fixedBetween axis p₁ p₂ - drawn) / values.shareBetween axis p₁ p₂ ≤
          values.measure axis .fixed := (div_le_iff₀ hshare).mpr hroom
      constructor
      · rw [← neg_sub, neg_div, ← sub_eq_add_neg]
        exact sub_nonneg.mpr hrest
      · rw [drawnBetween_of_shortfall htotal hfixed hshare, abs_le]
        rw [sliceTolerance_eq] at htolerated
        constructor <;> linarith
  · have hwhole := values.fixed_add_proportional axis
    have hweight : 0 < values.measure axis .proportional := AxisPart.measure_proportional_pos h
    have hmax : max (values.axis axis).1 (values.measure axis .fixed) = (values.axis axis).1 :=
      max_eq_left ((le_add_of_nonneg_right hweight.le).trans hwhole.le)
    rw [hmax, drawnBetween_natural h]
    constructor
    · exact (add_pos htotal hweight).le.trans hwhole.le
    · have hrest := hposed.slight hcuts hslight
      rw [abs_le] at hclose hrest ⊢
      constructor <;> linarith
  · have hfixed : drawn < values.fixedBetween axis p₁ p₂ := by
      rw [sliceTolerance_eq] at hshort
      linarith
    constructor
    · exact div_nonneg (mul_nonneg htotal.le hdrawn) (hdrawn.trans hfixed.le)
    · rwa [drawnBetween_of_scale htotal hdrawn hfixed]

theorem inferAxis_uncut (hcuts : (values.axis axis).2 = []) :
    inferAxis values axis p₁ p₂ q₁ q₂ = inferStretched axis (values.axis axis).1 p₁ p₂ q₁ q₂ := by
  unfold inferAxis
  generalize values.axis axis = cutAxis at *
  obtain ⟨reference, cuts⟩ := cutAxis
  obtain rfl : cuts = [] := hcuts
  rfl

theorem inferAxis_cut (hcuts : (values.axis axis).2 ≠ [])
    (h : inferAxis values axis p₁ p₂ q₁ q₂ = .ok (start, length)) :
    0 ≤ q₂ - q₁ ∧
      inferLength axis (values.axis axis).1 (values.measure axis .fixed)
        (values.fixedBetween axis p₁ p₂) (values.shareBetween axis p₁ p₂) (q₂ - q₁) = .ok length ∧
      start = q₁ - (values.layout axis Number.zero length).transform p₁ := by
  unfold inferAxis at h
  unfold shareBetween weightBetween fixedBetween lengthsAt measure parts layout
  generalize values.axis axis = cutAxis at *
  obtain ⟨reference, cuts⟩ := cutAxis
  cases cuts with
  | nil => exact absurd rfl hcuts
  | cons cut more =>
      simp only [AxisPart.total_eq_measure] at h
      split at h
      · cases h
      · next hdrawn =>
          obtain ⟨length, hlength, h⟩ := exists_of_bind_eq_ok h
          cases h
          rw [ExactNumber.zero_eq, not_lt] at hdrawn
          exact ⟨hdrawn, hlength, rfl⟩

theorem transform_uncut (hcuts : (values.axis axis).2 = []) (start : α) (hlength : 0 ≤ length)
    (hlong : Number.epsilon < (values.partAt axis p).length) :
    (values.layout axis start length).transform p = start + p * length / (values.axis axis).1 := by
  unfold partAt parts at hlong
  unfold layout
  rw [hcuts] at hlong ⊢
  have hplace := AxisPart.mapLinear_of_long ⟨.proportional, Number.zero, (values.axis axis).1⟩
    ⟨.proportional, start, start + Number.positivePart length⟩ hlong p
  refine Eq.trans hplace ?_
  unfold AxisPart.length
  simp only [ExactNumber.positivePart_of_nonneg hlength, ExactNumber.zero_eq, sub_zero,
    add_sub_cancel_left]

theorem transform_inferAxis_uncut (h : (values.bounds axis).IsChain (· < ·))
    (hcuts : (values.axis axis).2 = []) (hposed : values.IsWellPosed axis p₁ p₂ (q₂ - q₁))
    (hinfer : inferAxis values axis p₁ p₂ q₁ q₂ = .ok (start, length)) :
    0 ≤ length ∧ (values.layout axis start length).transform p₁ = q₁ ∧
      (values.layout axis start length).transform p₂ = q₂ := by
  rw [inferAxis_uncut hcuts] at hinfer
  obtain ⟨hinner, hlength, heq, rfl⟩ := inferStretched_eq_ok hinfer
  have hrange : p₂ - p₁ ≠ 0 := abs_pos.mp (ExactNumber.epsilon_pos.trans hinner)
  have hreference : (values.axis axis).1 ≠ 0 := by
    rw [bounds, hcuts, ExactNumber.zero_eq] at h
    exact (List.isChain_pair.mp h).ne'
  refine ⟨hlength, ?_, ?_⟩
  · rw [transform_uncut hcuts _ hlength hposed.low_long, sub_add_cancel]
  · rw [transform_uncut hcuts _ hlength hposed.high_long, heq]
    field_simp
    ring

theorem transform_inferAxis_cut (h : (values.bounds axis).IsChain (· < ·))
    (hcuts : (values.axis axis).2 ≠ []) (hposed : values.IsWellPosed axis p₁ p₂ (q₂ - q₁))
    (hinfer : inferAxis values axis p₁ p₂ q₁ q₂ = .ok (start, length)) :
    0 ≤ length ∧ (values.layout axis start length).transform p₁ = q₁ ∧
      |(values.layout axis start length).transform p₂ - q₂| ≤ 1 / 10 ^ 6 := by
  obtain ⟨hdrawn, hinferred, hstart⟩ := inferAxis_cut hcuts hinfer
  obtain ⟨hlength, hnear⟩ := drawnBetween_inferLength h hcuts hposed hdrawn hinferred
  have hlow : (values.layout axis start length).transform p₁ = q₁ := by
    rw [transform_layout h _ hlength hposed.low_long, ExactNumber.zero_eq, zero_add] at hstart
    rw [transform_layout h start hlength hposed.low_long, hstart, sub_add_cancel]
  have hrange := transform_sub_transform h start hlength hposed.low_long hposed.high_long
  rw [hlow] at hrange
  rw [← hrange, sub_sub_sub_cancel_right] at hnear
  exact ⟨hlength, hlow, hnear⟩

/-- The range is drawn from where it was asked for, and up to there but for the tolerance. -/
theorem transform_inferAxis (h : (values.bounds axis).IsChain (· < ·))
    (hposed : values.IsWellPosed axis p₁ p₂ (q₂ - q₁))
    (hinfer : inferAxis values axis p₁ p₂ q₁ q₂ = .ok (start, length)) :
    0 ≤ length ∧ (values.layout axis start length).transform p₁ = q₁ ∧
      |(values.layout axis start length).transform p₂ - q₂| ≤ 1 / 10 ^ 6 := by
  by_cases hcuts : (values.axis axis).2 = []
  · obtain ⟨hlength, hlow, hhigh⟩ := transform_inferAxis_uncut h hcuts hposed hinfer
    rw [hhigh, sub_self, abs_zero]
    exact ⟨hlength, hlow, by positivity⟩
  · exact transform_inferAxis_cut h hcuts hposed hinfer

end SliceValues

/-! ### Rectangles -/

namespace Rect

variable {r : Rect α}

theorem normalized_extents_nonneg (r : Rect α) :
    0 ≤ r.normalized.width ∧ 0 ≤ r.normalized.height := by
  unfold normalized
  simp only [ExactNumber.zero_eq]
  constructor
  · split
    · next h => exact (neg_pos.mpr h).le
    · next h => exact not_lt.mp h
  · split
    · next h => exact (neg_pos.mpr h).le
    · next h => exact not_lt.mp h

theorem normalized_eq_self (hwidth : 0 ≤ r.width) (hheight : 0 ≤ r.height) : r.normalized = r := by
  unfold normalized
  simp only [ExactNumber.zero_eq, if_neg hwidth.not_gt, if_neg hheight.not_gt]

/-- Every edge of a rectangle lies near the same edge of another one. -/
structure IsNear (tolerance : α) (r s : Rect α) : Prop where
  left : |r.x - s.x| ≤ tolerance
  top : |r.y - s.y| ≤ tolerance
  right : |(r.x + r.width) - (s.x + s.width)| ≤ tolerance
  bottom : |(r.y + r.height) - (s.y + s.height)| ≤ tolerance

theorem isNear_ofPoints {p q : Point α} {tolerance : α} (hx : p.x ≤ q.x) (hy : p.y ≤ q.y)
    (hleft : |p.x - r.x| ≤ tolerance) (htop : |p.y - r.y| ≤ tolerance)
    (hright : |q.x - (r.x + r.width)| ≤ tolerance)
    (hbottom : |q.y - (r.y + r.height)| ≤ tolerance) : (ofPoints p q).IsNear tolerance r := by
  have hrect : ofPoints p q = ⟨p.x, p.y, q.x - p.x, q.y - p.y⟩ :=
    normalized_eq_self (sub_nonneg.mpr hx) (sub_nonneg.mpr hy)
  rw [hrect]
  refine ⟨hleft, htop, ?_, ?_⟩
  · rwa [add_sub_cancel]
  · rwa [add_sub_cancel]

end Rect

namespace SliceScaling

variable {values : SliceValues α} {size : Size α} {xs ys : List α} {inner drawn : Rect α}
  {s : SliceScaling α}

/-- What is inferred for a rectangle is inferred for each axis alone. -/
theorem infer_eq_ok (h : infer values inner drawn = .ok s) : ∃ x width y height,
    inferAxis values .x inner.normalized.x (inner.normalized.x + inner.normalized.width)
        drawn.normalized.x (drawn.normalized.x + drawn.normalized.width) = .ok (x, width) ∧
      inferAxis values .y inner.normalized.y (inner.normalized.y + inner.normalized.height)
        drawn.normalized.y (drawn.normalized.y + drawn.normalized.height) = .ok (y, height) ∧
      s = compute values ⟨x, y, width, height⟩ := by
  obtain ⟨⟨x, width⟩, hx, h⟩ := exists_of_bind_eq_ok h
  obtain ⟨⟨y, height⟩, hy, h⟩ := exists_of_bind_eq_ok h
  cases h
  exact ⟨x, width, y, height, hx, hy, rfl⟩

theorem compute_of_nonneg (values : SliceValues α) {x y width height : α} (hwidth : 0 ≤ width)
    (hheight : 0 ≤ height) : compute values ⟨x, y, width, height⟩ =
      ⟨⟨x, y, width, height⟩, values.layout .x x width, values.layout .y y height⟩ := by
  have htarget : (⟨x, y, width, height⟩ : Rect α).normalized = ⟨x, y, width, height⟩ :=
    Rect.normalized_eq_self hwidth hheight
  unfold compute
  rw [htarget]
  rfl

/-- The whole that is inferred draws the inner rectangle where it was asked for, up to the
tolerance, if both axes can be found. -/
theorem infer_draws (hvalues : SliceValues.make size xs ys = .ok values)
    (hinfer : infer values inner drawn = .ok s)
    (hx : values.IsWellPosed .x inner.normalized.x (inner.normalized.x + inner.normalized.width)
      drawn.normalized.width)
    (hy : values.IsWellPosed .y inner.normalized.y (inner.normalized.y + inner.normalized.height)
      drawn.normalized.height) :
    (s.transformRect inner).IsNear (1 / 10 ^ 6) drawn.normalized := by
  obtain ⟨x, width, y, height, hxs, hys, rfl⟩ := infer_eq_ok hinfer
  rw [← add_sub_cancel_left drawn.normalized.x drawn.normalized.width] at hx
  rw [← add_sub_cancel_left drawn.normalized.y drawn.normalized.height] at hy
  have hboundsX := SliceValues.isChain_bounds hvalues .x
  have hboundsY := SliceValues.isChain_bounds hvalues .y
  obtain ⟨hwidth, hleft, hright⟩ := SliceValues.transform_inferAxis hboundsX hx hxs
  obtain ⟨hheight, htop, hbottom⟩ := SliceValues.transform_inferAxis hboundsY hy hys
  have hmonoX := (AxisScaling.isLaidOut_compute hboundsX x hwidth).monotone_transform
  have hmonoY := (AxisScaling.isLaidOut_compute hboundsY y hheight).monotone_transform
  obtain ⟨hinnerWidth, hinnerHeight⟩ := inner.normalized_extents_nonneg
  rw [compute_of_nonneg values hwidth hheight]
  apply Rect.isNear_ofPoints
  · exact hmonoX (le_add_of_nonneg_right hinnerWidth)
  · exact hmonoY (le_add_of_nonneg_right hinnerHeight)
  · exact (abs_nonpos_iff.mpr (sub_eq_zero.mpr hleft)).trans (by positivity)
  · exact (abs_nonpos_iff.mpr (sub_eq_zero.mpr htop)).trans (by positivity)
  · exact hright
  · exact hbottom

section Rational

attribute [local instance] ExactNumber.rational

/-- The inner part of the panel, given from right to left. -/
def panelRange : Rect ℚ := ⟨95, 30, -90, 20⟩

/-- A place for it, with room for what is fixed in it along one axis, and along the other with room
for all of it but less than the tolerance. -/
def panelPlace : Rect ℚ := ⟨70, 8, -50, 10 - 1 / 2 ^ 30⟩

theorem infer_draws_panel : ∃ s, infer SliceValues.panel panelRange panelPlace = .ok s ∧
    (s.transformRect panelRange).IsNear (1 / 10 ^ 6) ⟨20, 8, 50, 10 - 1 / 2 ^ 30⟩ := by
  have hvalues : SliceValues.make (⟨100, 60⟩ : Size ℚ) [10, 90] [25, 40, 55] =
      .ok SliceValues.panel := rfl
  have hplace : panelPlace.normalized = ⟨20, 8, 50, 10 - 1 / 2 ^ 30⟩ := by decide +kernel
  have hsome : (infer SliceValues.panel panelRange panelPlace).toOption.isSome = true := by
    decide +kernel
  cases hinfer : infer SliceValues.panel panelRange panelPlace with
  | error e =>
      rw [hinfer] at hsome
      cases hsome
  | ok s =>
      have hnear := infer_draws hvalues hinfer
        ⟨by decide +kernel, by decide +kernel, by decide +kernel, by decide +kernel⟩
        ⟨by decide +kernel, by decide +kernel, by decide +kernel, by decide +kernel⟩
      rw [hplace] at hnear
      exact ⟨s, rfl, hnear⟩

/-- A ribbon that keeps its first half. -/
def ribbon : SliceValues ℚ := ⟨⟨128, 128⟩, [64], []⟩

/-- A range that goes a little beyond the first half of the ribbon. -/
def ribbonRange : Rect ℚ := ⟨0, 0, 64 + 1 / 2 ^ 30, 128⟩

/-- A place for the range, shorter than the first half by less than the tolerance. -/
def ribbonPlace : Rect ℚ := ⟨0, 0, 64 - 1 / 2 ^ 30, 128⟩

/-- The shortfall costs more than the range has of the second half: the ribbon is inferred to have
no width, and the range is drawn as a line. -/
theorem infer_misses :
    SliceValues.make (⟨128, 128⟩ : Size ℚ) [64] [] = .ok ribbon ∧
      ∃ s, infer ribbon ribbonRange ribbonPlace = .ok s ∧
        s.transformRect ribbonRange = ⟨0, 0, 0, 128⟩ ∧
        ¬ (s.transformRect ribbonRange).IsNear (1 / 10 ^ 6) ribbonPlace.normalized := by
  have hdrawn : (infer ribbon ribbonRange ribbonPlace).toOption.map (·.transformRect ribbonRange) =
      some ⟨0, 0, 0, 128⟩ := by decide +kernel
  refine ⟨rfl, ?_⟩
  cases hinfer : infer ribbon ribbonRange ribbonPlace with
  | error e =>
      rw [hinfer] at hdrawn
      cases hdrawn
  | ok s =>
      rw [hinfer] at hdrawn
      have hline : s.transformRect ribbonRange = ⟨0, 0, 0, 128⟩ := Option.some.inj hdrawn
      refine ⟨s, rfl, hline, ?_⟩
      rw [hline]
      intro hnear
      exact absurd hnear.right (by decide +kernel)

end Rational

end SliceScaling

end PatternMarkup
