import Mathlib
import PatternMarkup.Number.Double
/-!
How integers are kept in doubles. The double of an integer holds the nearest integer among those of
at most 53 significant bits, of two equally near ones the one whose last bit is even. It is found by
shifting the bits beyond the first 53 out, which rounds to that integer, and is packed into 64 bits,
which loses nothing. Rounding keeps the order of integers and changes none up to `2 ^ 53`, and
comparing the doubles of two integers compares the nearest integers.
-/

namespace PatternMarkup

namespace Double

/-! ### Rounding integers -/

/-- The quotient rounded to the nearest whole number, a half to the even one. -/
def roundQuotient (n d : Nat) : Nat :=
  if 2 * (n % d) < d then n / d
  else if d < 2 * (n % d) then n / d + 1
  else n / d + n / d % 2

/-- How many bits of a number are beyond the first 53. -/
def surplusBits (n : Nat) : Nat := n.log2 - 52

/-- The number of at most 53 significant bits that is nearest to another one. -/
def nearestNat (n : Nat) : Nat := roundQuotient n (2 ^ surplusBits n) * 2 ^ surplusBits n

/-- The integer of at most 53 significant bits that is nearest to another one. -/
def nearest : Int → Int
  | .ofNat n => nearestNat n
  | .negSucc n => -(nearestNat (n + 1) : Int)

theorem roundQuotient_cases (n d : Nat) :
    (roundQuotient n d = n / d ∧ 2 * (n % d) ≤ d) ∨
      (roundQuotient n d = n / d + 1 ∧ d ≤ 2 * (n % d)) := by
  have heven := Nat.mod_two_eq_zero_or_one (n / d)
  unfold roundQuotient
  split
  · exact .inl ⟨rfl, by omega⟩
  · split
    · exact .inr ⟨rfl, by omega⟩
    · rcases heven with heven | heven
      · exact .inl ⟨by omega, by omega⟩
      · exact .inr ⟨by omega, by omega⟩

/-- A quotient is rounded up if more than one half is left, or one half and the quotient is odd. -/
theorem roundQuotient_eq_succ_iff (n d : Nat) :
    roundQuotient n d = n / d + 1 ↔ d < 2 * (n % d) ∨ 2 * (n % d) = d ∧ n / d % 2 = 1 := by
  unfold roundQuotient
  split
  · omega
  · split
    · omega
    · omega

theorem roundQuotient_one (n : Nat) : roundQuotient n 1 = n := by
  simp [roundQuotient, Nat.mod_one]

theorem roundQuotient_mul_mul (n d : Nat) {k : Nat} (hk : 0 < k) :
    roundQuotient (n * k) (d * k) = roundQuotient n d := by
  have hdiv : n * k / (d * k) = n / d := Nat.mul_div_mul_right n d hk
  have hmod : n * k % (d * k) = n % d * k := Nat.mul_mod_mul_right k n d
  have hless : 2 * (n % d * k) < d * k ↔ 2 * (n % d) < d := by
    rw [← Nat.mul_assoc, Nat.mul_lt_mul_right hk]
  have hmore : d * k < 2 * (n % d * k) ↔ d < 2 * (n % d) := by
    rw [← Nat.mul_assoc, Nat.mul_lt_mul_right hk]
  simp only [roundQuotient, hdiv, hmod, hless, hmore]

theorem roundQuotient_mono {m n : Nat} (d : Nat) (h : m ≤ n) :
    roundQuotient m d ≤ roundQuotient n d := by
  have hquotient : m / d ≤ n / d := Nat.div_le_div_right h
  rcases hquotient.lt_or_eq with hlt | heq
  · rcases roundQuotient_cases m d with hm | hm <;>
      rcases roundQuotient_cases n d with hn | hn <;> omega
  · have hm := Nat.div_add_mod m d
    have hn := Nat.div_add_mod n d
    have hrest : m % d ≤ n % d := by
      rw [heq] at hm
      omega
    rcases roundQuotient_cases m d with ⟨hdown, -⟩ | ⟨hup, -⟩
    · rcases roundQuotient_cases n d with ⟨hn, -⟩ | ⟨hn, -⟩ <;> omega
    · have hhalf := (roundQuotient_eq_succ_iff m d).mp hup
      have hmore := (roundQuotient_eq_succ_iff n d).mpr (by omega)
      omega

/-! ### Numbers of 53 bits -/

theorem surplusBits_of_lt {n : Nat} (h : n < 2 ^ 53) : surplusBits n = 0 := by
  rcases Nat.eq_zero_or_pos n with rfl | hpos
  · rfl
  · have hlog := (Nat.log2_lt hpos.ne').mpr h
    unfold surplusBits
    omega

/-- The first 53 bits of a number that has as many. -/
theorem quotient_bounds {n : Nat} (h : 2 ^ 52 ≤ n) :
    2 ^ 52 ≤ n / 2 ^ surplusBits n ∧ n / 2 ^ surplusBits n < 2 ^ 53 := by
  have hne : n ≠ 0 := by omega
  have hlog : 52 ≤ n.log2 := (Nat.le_log2 hne).mpr h
  have hpos : 0 < 2 ^ surplusBits n := Nat.two_pow_pos _
  have hlow : 52 + surplusBits n = n.log2 := by
    unfold surplusBits
    omega
  have hhigh : 53 + surplusBits n = n.log2 + 1 := by omega
  constructor
  · rw [Nat.le_div_iff_mul_le hpos, ← Nat.pow_add, hlow]
    exact Nat.log2_self_le hne
  · rw [Nat.div_lt_iff_lt_mul hpos, ← Nat.pow_add, hhigh]
    exact Nat.lt_log2_self

theorem surplusBits_mul {n : Nat} (h : 2 ^ 52 ≤ n) (k : Nat) :
    surplusBits (n * 2 ^ k) = surplusBits n + k := by
  have hne : n ≠ 0 := by omega
  have hlog : 52 ≤ n.log2 := (Nat.le_log2 hne).mpr h
  have hmul : (n * 2 ^ k).log2 = n.log2 + k := by
    rw [Nat.log2_eq_iff (Nat.mul_ne_zero hne (Nat.two_pow_pos k).ne'), Nat.pow_add,
      Nat.add_right_comm, Nat.pow_add]
    exact ⟨Nat.mul_le_mul_right _ (Nat.log2_self_le hne),
      Nat.mul_lt_mul_of_pos_right Nat.lt_log2_self (Nat.two_pow_pos k)⟩
  unfold surplusBits
  omega

/-- Doubling a number doubles what is nearest to it. -/
theorem nearestNat_mul {n : Nat} (h : 2 ^ 52 ≤ n) (k : Nat) :
    nearestNat (n * 2 ^ k) = nearestNat n * 2 ^ k := by
  rw [nearestNat, nearestNat, surplusBits_mul h, Nat.pow_add,
    roundQuotient_mul_mul _ _ (Nat.two_pow_pos k), Nat.mul_assoc]

theorem nearestNat_of_lt {n : Nat} (h : n < 2 ^ 53) : nearestNat n = n := by
  rw [nearestNat, surplusBits_of_lt h, Nat.pow_zero, roundQuotient_one, Nat.mul_one]

/-- A number of 53 bits is nearest to itself, also with zeros after it. -/
theorem nearestNat_mul_of_lt {m : Nat} (hlow : 2 ^ 52 ≤ m) (hhigh : m < 2 ^ 53) (k : Nat) :
    nearestNat (m * 2 ^ k) = m * 2 ^ k := by
  rw [nearestNat_mul hlow, nearestNat_of_lt hhigh]

theorem nearestNat_of_le {n : Nat} (h : n ≤ 2 ^ 53) : nearestNat n = n := by
  rcases h.lt_or_eq with hlt | rfl
  · exact nearestNat_of_lt hlt
  · exact nearestNat_mul_of_lt (Nat.le_refl (2 ^ 52)) (by decide) 1

theorem nearestNat_bounds {n : Nat} (h : 2 ^ 52 ≤ n) :
    2 ^ 52 * 2 ^ surplusBits n ≤ nearestNat n ∧ nearestNat n ≤ 2 ^ 53 * 2 ^ surplusBits n := by
  obtain ⟨hlow, hhigh⟩ := quotient_bounds h
  have hround := roundQuotient_cases n (2 ^ surplusBits n)
  exact ⟨Nat.mul_le_mul_right _ (by omega), Nat.mul_le_mul_right _ (by omega)⟩

theorem nearestNat_mono {m n : Nat} (h : m ≤ n) : nearestNat m ≤ nearestNat n := by
  rcases Nat.lt_or_ge m (2 ^ 53) with hm | hm
  · rw [nearestNat_of_lt hm]
    rcases Nat.lt_or_ge n (2 ^ 53) with hn | hn
    · rwa [nearestNat_of_lt hn]
    · have hbits : 1 ≤ surplusBits n := by
        have hlog : 53 ≤ n.log2 := (Nat.le_log2 (by omega)).mpr hn
        unfold surplusBits
        omega
      have hpow : 2 ^ 1 ≤ 2 ^ surplusBits n := Nat.pow_le_pow_right (by decide) hbits
      have hlow := (nearestNat_bounds (n := n) (by omega)).1
      omega
  · have hlog : m.log2 ≤ n.log2 := (Nat.le_log2 (by omega)).mpr
      (Nat.le_trans (Nat.log2_self_le (by omega)) h)
    have hbits : surplusBits m ≤ surplusBits n := Nat.sub_le_sub_right hlog 52
    rcases hbits.lt_or_eq with hlt | heq
    · -- A number with more bits rounds to at least the next power of two.
      calc nearestNat m ≤ 2 ^ 53 * 2 ^ surplusBits m := (nearestNat_bounds (by omega)).2
        _ = 2 ^ 52 * 2 ^ (surplusBits m + 1) := by rw [Nat.pow_succ]; omega
        _ ≤ 2 ^ 52 * 2 ^ surplusBits n :=
            Nat.mul_le_mul_left _ (Nat.pow_le_pow_right (by decide) hlt)
        _ ≤ nearestNat n := (nearestNat_bounds (by omega)).1
    · rw [nearestNat, nearestNat, heq]
      exact Nat.mul_le_mul_right _ (roundQuotient_mono _ h)

/-- No number of at most 53 bits, also with zeros after it, is nearer. -/
theorem nearestNat_isNearest (n : Nat) {m : Nat} (hm : m < 2 ^ 53) (k : Nat) :
    ((nearestNat n : Int) - n).natAbs ≤ ((m * 2 ^ k : Nat) - (n : Int)).natAbs := by
  rcases Nat.lt_or_ge n (2 ^ 53) with hn | hn
  · rw [nearestNat_of_lt hn]
    simp
  · obtain ⟨hlow, -⟩ := quotient_bounds (n := n) (by omega)
    have hdivmod := Nat.div_add_mod n (2 ^ surplusBits n)
    have hrest := Nat.mod_lt n (Nat.two_pow_pos (surplusBits n))
    have hround := roundQuotient_cases n (2 ^ surplusBits n)
    rw [nearestNat]
    generalize hd : 2 ^ surplusBits n = d at *
    generalize hq : n / d = q at *
    generalize roundQuotient n d = r at *
    have hmul : d * q = q * d := Nat.mul_comm d q
    have hnext : (q + 1) * d = q * d + d := Nat.succ_mul q d
    -- The candidate lies at or below the last multiple before, or at or above the next one.
    have hside : m * 2 ^ k ≤ q * d ∨ q * d + d ≤ m * 2 ^ k := by
      rcases Nat.lt_or_ge k (surplusBits n) with hk | hk
      · left
        calc m * 2 ^ k ≤ 2 ^ 53 * 2 ^ k := Nat.mul_le_mul_right _ (Nat.le_of_lt hm)
          _ = 2 ^ 52 * 2 ^ (k + 1) := by rw [Nat.pow_succ]; omega
          _ ≤ 2 ^ 52 * d := Nat.mul_le_mul_left _ (hd ▸ Nat.pow_le_pow_right (by decide) hk)
          _ ≤ q * d := Nat.mul_le_mul_right _ hlow
      · have hmultiple : m * 2 ^ k = m * 2 ^ (k - surplusBits n) * d := by
          rw [← hd, Nat.mul_assoc, ← Nat.pow_add, Nat.sub_add_cancel hk]
        rw [hmultiple]
        rcases Nat.lt_or_ge q (m * 2 ^ (k - surplusBits n)) with hmore | hless
        · exact .inr (hnext ▸ Nat.mul_le_mul_right d hmore)
        · exact .inl (Nat.mul_le_mul_right d hless)
    rcases hround with ⟨rfl, hhalf⟩ | ⟨rfl, hhalf⟩
    · omega
    · rw [hnext]
      omega

/-! ### Integers -/

theorem nearest_mono {m n : Int} (h : m ≤ n) : nearest m ≤ nearest n := by
  rcases m with m | m <;> rcases n with n | n
  · exact Int.ofNat_le.mpr (nearestNat_mono (Int.ofNat_le.mp h))
  · exact absurd (Int.le_trans (Int.natCast_nonneg m) h) (Int.not_le.mpr (Int.negSucc_lt_zero n))
  · simp only [nearest]
    omega
  · have hnat : nearestNat (n + 1) ≤ nearestNat (m + 1) := nearestNat_mono (by omega)
    simp only [nearest]
    omega

theorem nearest_of_natAbs_le {n : Int} (h : n.natAbs ≤ 2 ^ 53) : nearest n = n := by
  rcases n with n | n
  · exact congrArg Int.ofNat (nearestNat_of_le h)
  · have hnat : nearestNat (n + 1) = n + 1 := nearestNat_of_le h
    rw [nearest, hnat]
    rfl

open Float.Model (Format UnpackedFloat)
open Float.Model.UnpackedFloat

/-! ### Rounding by shifts -/

/-- The bits that are shifted out tell how the rest compares to one half. -/
theorem shiftRight_exact (m k : Nat) :
    (ExtendedMantissa.ofMantissaAndAccuracy m .exact) >>> k =
      ⟨m / 2 ^ k, decide (2 ^ k ≤ 2 * (m % 2 ^ k)), decide (2 * (m % 2 ^ k) % 2 ^ k ≠ 0)⟩ := by
  induction k with
  | zero =>
      simp only [HShiftRight.hShiftRight, Nat.repeat, ExtendedMantissa.ofMantissaAndAccuracy,
        Nat.pow_zero, Nat.div_one, Nat.mod_one]
      rfl
  | succ k ih =>
      have hstep : (ExtendedMantissa.ofMantissaAndAccuracy m .exact) >>> (k + 1) =
          ((ExtendedMantissa.ofMantissaAndAccuracy m .exact) >>> k).shiftRightOne := rfl
      rw [hstep, ih, ExtendedMantissa.shiftRightOne]
      have hpos : 0 < 2 ^ k := Nat.two_pow_pos k
      have hdiv : m / 2 ^ (k + 1) = m / 2 ^ k / 2 := by rw [Nat.pow_succ, Nat.div_div_eq_div_mul]
      have hmod : m % 2 ^ (k + 1) = m % 2 ^ k + 2 ^ k * (m / 2 ^ k % 2) := by
        rw [Nat.pow_succ, Nat.mod_mul]
      have hless := Nat.mod_lt m hpos
      have hpow : 2 ^ (k + 1) = 2 * 2 ^ k := by rw [Nat.pow_succ, Nat.mul_comm]
      rw [hdiv, hmod, hpow]
      generalize m % 2 ^ k = r at *
      generalize m / 2 ^ k = q at *
      generalize 2 ^ k = d at *
      have hrest : 2 * (r + d * (q % 2)) % (2 * d) = 2 * r := by
        rw [Nat.mul_mod_mul_left, Nat.add_mul_mod_self_left, Nat.mod_eq_of_lt hless]
      have hround : (q % 2 != 0) = decide (2 * d ≤ 2 * (r + d * (q % 2))) := by
        rcases Nat.mod_two_eq_zero_or_one q with hq | hq
        · simp [hq, hless]
        · simp [hq]
      have hsticky : (decide (d ≤ 2 * r) || decide (2 * r % d ≠ 0)) = decide (2 * r ≠ 0) := by
        by_cases hr : 2 * r < d
        · rw [Nat.mod_eq_of_lt hr, decide_eq_false (Nat.not_le.mpr hr), Bool.false_or]
        · rw [decide_eq_true (Nat.not_lt.mp hr), Bool.true_or]
          exact (decide_eq_true (by omega)).symm
      change ExtendedMantissa.mk (q / 2) (q % 2 != 0) (decide (d ≤ 2 * r) ||
        decide (2 * r % d ≠ 0)) = _
      rw [hrest, hround, hsticky]

/-- Rounding by the bits that are shifted out is rounding the quotient. -/
theorem roundedMantissa_shiftRight (m k : Nat) :
    ((ExtendedMantissa.ofMantissaAndAccuracy m .exact) >>> k).roundedMantissa =
      roundQuotient m (2 ^ k) := by
  have hless := Nat.mod_lt m (Nat.two_pow_pos k)
  rw [shiftRight_exact, roundQuotient]
  generalize m % 2 ^ k = r at *
  generalize m / 2 ^ k = q
  generalize 2 ^ k = d at *
  by_cases hround : d ≤ 2 * r
  · have hrest : 2 * r % d = 2 * r - d := by
      rw [Nat.mod_eq_sub_mod hround, Nat.mod_eq_of_lt (by omega)]
    rw [hrest, decide_eq_true hround, if_neg (Nat.not_lt.mpr hround)]
    by_cases hmore : d < 2 * r
    · rw [decide_eq_true (by omega), if_pos hmore]
      rfl
    · rw [decide_eq_false (by omega), if_neg hmore]
      rfl
  · have hless : 2 * r < d := Nat.not_le.mp hround
    rw [decide_eq_false hround, Nat.mod_eq_of_lt hless, if_pos hless]
    by_cases hzero : 2 * r = 0 <;> simp [hzero, ExtendedMantissa.roundedMantissa,
      ExtendedMantissa.accuracy, Accuracy.roundToNearestEven]

/-! ### Doubles that hold integers -/

/-- The unit of the least exponent is this power of two below one. -/
def unitExponent : Nat := 1074

/-- The number is an integer, as a sign, a significand of 53 bits and an exponent. Exponents are
counted from the least one. -/
inductive Holds : UnpackedFloat → Int → Prop
  | zero (s : Sign) : Holds (.zero s) 0
  | finite (s : Sign) (m e n : Nat) (hpos : 0 < m) (hlow : 2 ^ 52 ≤ m) (hhigh : m < 2 ^ 53)
      (hexponent : e ≤ 2045) (hvalue : m * 2 ^ e = n * 2 ^ unitExponent) :
      Holds (.finite s m ((e : Int) - unitExponent) hpos) (s.apply n)

theorem Holds.neg {u : UnpackedFloat} {n : Int} (h : Holds u n) : Holds u.neg (-n) := by
  cases h with
  | zero s => exact .zero (-s)
  | finite s m e n hpos hlow hhigh hexponent hvalue =>
      have hsign : (-s).apply n = -s.apply n := by
        cases s
        · exact (Int.neg_neg _).symm
        · rfl
      exact hsign ▸ .finite (-s) m e n hpos hlow hhigh hexponent hvalue

/-- The order of exponents and significands is that of the integers. -/
theorem compare_of_values {m m' e e' n n' : Nat} (hlow : 2 ^ 52 ≤ m) (hhigh : m < 2 ^ 53)
    (hlow' : 2 ^ 52 ≤ m') (hhigh' : m' < 2 ^ 53) (hvalue : m * 2 ^ e = n * 2 ^ unitExponent)
    (hvalue' : m' * 2 ^ e' = n' * 2 ^ unitExponent) :
    (compare ((e : Int) - unitExponent) ((e' : Int) - unitExponent)).then (compare m m') =
      compare n n' := by
  have hscale : 0 < 2 ^ unitExponent := Nat.two_pow_pos _
  have hbelow : ∀ {m m' e e' : Nat}, m < 2 ^ 53 → 2 ^ 52 ≤ m' → e < e' →
      m * 2 ^ e < m' * 2 ^ e' := by
    intro m m' e e' hm hm' he
    calc m * 2 ^ e < 2 ^ 53 * 2 ^ e := Nat.mul_lt_mul_of_pos_right hm (Nat.two_pow_pos e)
      _ = 2 ^ 52 * 2 ^ (e + 1) := by rw [Nat.pow_succ]; omega
      _ ≤ m' * 2 ^ e' := Nat.mul_le_mul hm' (Nat.pow_le_pow_right (by decide) he)
  rcases Nat.lt_trichotomy e e' with he | rfl | he
  · have hless := hbelow hhigh hlow' he
    rw [hvalue, hvalue', Nat.mul_lt_mul_right hscale] at hless
    rw [Int.compare_eq_lt.mpr (by omega), Nat.compare_eq_lt.mpr hless]
    rfl
  · rw [Int.compare_eq_eq.mpr rfl, Ordering.eq_then]
    have hpow : 0 < 2 ^ e := Nat.two_pow_pos e
    rcases Nat.lt_trichotomy m m' with hm | rfl | hm
    · have hless := (Nat.mul_lt_mul_right hpow).mpr hm
      rw [hvalue, hvalue', Nat.mul_lt_mul_right hscale] at hless
      rw [Nat.compare_eq_lt.mpr hm, Nat.compare_eq_lt.mpr hless]
    · have hsame := Nat.eq_of_mul_eq_mul_right hscale (hvalue.symm.trans hvalue')
      rw [Nat.compare_eq_eq.mpr rfl, Nat.compare_eq_eq.mpr hsame]
    · have hmore := (Nat.mul_lt_mul_right hpow).mpr hm
      rw [hvalue, hvalue', Nat.mul_lt_mul_right hscale] at hmore
      rw [Nat.compare_eq_gt.mpr hm, Nat.compare_eq_gt.mpr hmore]
  · have hmore := hbelow hhigh' hlow he
    rw [hvalue, hvalue', Nat.mul_lt_mul_right hscale] at hmore
    rw [Int.compare_eq_gt.mpr (by omega), Nat.compare_eq_gt.mpr hmore]
    rfl

theorem compare_natCast (m n : Nat) : compare (m : Int) (n : Int) = compare m n := by
  rcases Nat.lt_trichotomy m n with h | rfl | h
  · rw [Nat.compare_eq_lt.mpr h, Int.compare_eq_lt.mpr (Int.ofNat_lt.mpr h)]
  · rw [Nat.compare_eq_eq.mpr rfl, Int.compare_eq_eq.mpr rfl]
  · rw [Nat.compare_eq_gt.mpr h, Int.compare_eq_gt.mpr (Int.ofNat_lt.mpr h)]

theorem compare_neg (a b : Int) : compare (-a) (-b) = compare b a := by
  rcases Int.lt_trichotomy b a with h | rfl | h
  · rw [Int.compare_eq_lt.mpr h, Int.compare_eq_lt.mpr (by omega)]
  · rw [Int.compare_eq_eq.mpr rfl, Int.compare_eq_eq.mpr rfl]
  · rw [Int.compare_eq_gt.mpr h, Int.compare_eq_gt.mpr (by omega)]

theorem pos_of_value {m e n : Nat} (hpos : 0 < m) (hvalue : m * 2 ^ e = n * 2 ^ unitExponent) :
    0 < n := by
  refine Nat.pos_of_mul_pos_right (b := 2 ^ unitExponent) ?_
  exact hvalue ▸ Nat.mul_pos hpos (Nat.two_pow_pos e)

/-- Numbers that hold integers compare as these do. -/
theorem Holds.compare {u v : UnpackedFloat} {a b : Int} (hu : Holds u a) (hv : Holds v b) :
    u.compare v = some (compare a b) := by
  cases hu with
  | zero s =>
      cases hv with
      | zero t => rfl
      | finite t m' e' n' hpos' hlow' hhigh' hexponent' hvalue' =>
          have hn' := pos_of_value hpos' hvalue'
          cases t with
          | negative =>
              have hless : -(n' : Int) < 0 := by omega
              exact congrArg some (Int.compare_eq_gt.mpr hless).symm
          | positive =>
              have hmore : 0 < (n' : Int) := by omega
              exact congrArg some (Int.compare_eq_lt.mpr hmore).symm
  | finite s m e n hpos hlow hhigh hexponent hvalue =>
      have hn := pos_of_value hpos hvalue
      cases hv with
      | zero t =>
          cases s with
          | negative =>
              have hless : -(n : Int) < 0 := by omega
              exact congrArg some (Int.compare_eq_lt.mpr hless).symm
          | positive =>
              have hmore : 0 < (n : Int) := by omega
              exact congrArg some (Int.compare_eq_gt.mpr hmore).symm
      | finite t m' e' n' hpos' hlow' hhigh' hexponent' hvalue' =>
          have hn' := pos_of_value hpos' hvalue'
          have hvalues := compare_of_values hlow hhigh hlow' hhigh' hvalue hvalue'
          cases s <;> cases t
          · -- Below zero the order is turned round.
            refine congrArg some ((congrArg Ordering.swap hvalues).trans ?_)
            rw [Nat.compare_swap, ← compare_natCast, ← compare_neg]
            rfl
          · have hless : -(n : Int) < n' := by omega
            exact congrArg some (Int.compare_eq_lt.mpr hless).symm
          · have hmore : -(n' : Int) < n := by omega
            exact congrArg some (Int.compare_eq_gt.mpr hmore).symm
          · exact congrArg some (hvalues.trans (compare_natCast n n').symm)

/-! ### Packing -/

/-- A number of 53 bits is its leading bit and the rest. -/
theorem toNat_one_append {m : Nat} (hlow : 2 ^ 52 ≤ m) (hhigh : m < 2 ^ 53) :
    (1#1 ++ BitVec.ofNat 52 m).toNat = m := by
  rw [BitVec.toNat_append, ← Nat.shiftLeft_add_eq_or_of_lt (BitVec.isLt _), BitVec.toNat_ofNat,
    Nat.shiftLeft_eq]
  simp only [BitVec.toNat_ofNat]
  omega

/-- Packing a number of 53 bits loses nothing. -/
theorem Holds.unpack_pack {u : UnpackedFloat} {a : Int} (h : Holds u a) :
    unpack Format.binary64 (pack Format.binary64 u) = u := by
  cases h with
  | zero s => cases s <;> rfl
  | finite s m e n hpos hlow hhigh hexponent hvalue =>
      have hlog : m.log2 = 52 := (Nat.log2_eq_iff hpos.ne').mpr ⟨hlow, hhigh⟩
      have hunit : (unitExponent : Int) = 1074 := rfl
      have hbias : (Format.binary64.exponentBias : Int) = 1023 := rfl
      have hwidth : (Format.binary64.mantissaBitsWithoutImplicit : Int) = 52 := rfl
      have hbiased : ((e : Int) - unitExponent + Format.binary64.exponentBias +
          Format.binary64.mantissaBitsWithoutImplicit).toNat = e + 1 := by omega
      have hfield : (BitVec.ofNat 11 (e + 1)).toNat = e + 1 := by
        rw [BitVec.toNat_ofNat]
        exact Nat.mod_eq_of_lt (by omega)
      have hnotLast : BitVec.ofNat 11 (e + 1) ≠ -1#11 := fun heq => by
        have htop := congrArg BitVec.toNat heq
        rw [hfield] at htop
        have hlast : (-1#11).toNat = 2047 := rfl
        omega
      have hnotFirst : BitVec.ofNat 11 (e + 1) ≠ 0#11 := fun heq => by
        have hzero := congrArg BitVec.toNat heq
        rw [hfield] at hzero
        exact Nat.succ_ne_zero e hzero
      have hpack : pack Format.binary64 (.finite s m ((e : Int) - unitExponent) hpos) =
          packComponents Format.binary64 s (BitVec.ofNat 11 (e + 1)) (BitVec.ofNat 52 m) := by
        simp only [pack, hbiased, hlog]
        rw [if_neg (by omega)]
        exact if_pos rfl
      rw [hpack, unpack]
      simp only [unpackMantissa_packComponents, unpackExponent_packComponents,
        unpackSign_packComponents, Sign.ofBitVec_toBitVec]
      rw [if_neg hnotLast, if_neg hnotFirst]
      congr 1
      · exact toNat_one_append hlow hhigh
      · rw [hfield, hunit, hbias, hwidth]
        omega

/-! ### Integers as doubles -/

theorem targetExponent_eq {m : Nat} (e : Nat) (h : 2 ^ 52 ≤ m) :
    Format.binary64.targetExponent (Float.Model.totalExponent m ((e : Int) - unitExponent)) =
      ((e + surplusBits m : Nat) : Int) - unitExponent := by
  have hlog : 52 ≤ m.log2 := (Nat.le_log2 (by omega)).mpr h
  have hunit : (unitExponent : Int) = 1074 := rfl
  have hbits : (Format.binary64.mantissaBits : Int) = 53 := rfl
  have hleast : Format.binary64.minExponent = -1074 := rfl
  rw [Format.targetExponent, Float.Model.totalExponent, hbits, hleast, hunit, surplusBits]
  omega

/-- A shift to the exponent of 53 bits shifts the surplus bits out. -/
theorem shiftToTargetExponent_eq {m : Nat} (e : Nat) (h : 2 ^ 52 ≤ m) :
    shiftToTargetExponent Format.binary64 m ((e : Int) - unitExponent) .exact =
      ((ExtendedMantissa.ofMantissaAndAccuracy m .exact) >>> surplusBits m,
        ((e + surplusBits m : Nat) : Int) - unitExponent) := by
  have hshift : (((e + surplusBits m : Nat) : Int) - unitExponent -
      ((e : Int) - unitExponent)).toNat = surplusBits m := by omega
  simp only [shiftToTargetExponent, targetExponent_eq e h, shiftToExponent, hshift]
  congr 1
  omega

/-- A number of 53 bits is not shifted; the next power of two is, by one bit. -/
theorem exists_shiftToTargetExponent {m : Nat} (e : Nat) (hlow : 2 ^ 52 ≤ m) (hhigh : m ≤ 2 ^ 53) :
    ∃ m' e' : Nat,
      (shiftToTargetExponent Format.binary64 m ((e : Int) - unitExponent) .exact).1.mantissa = m' ∧
      (shiftToTargetExponent Format.binary64 m ((e : Int) - unitExponent) .exact).2
        = (e' : Int) - unitExponent ∧
      2 ^ 52 ≤ m' ∧ m' < 2 ^ 53 ∧ e' ≤ e + 1 ∧ m' * 2 ^ e' = m * 2 ^ e := by
  rw [shiftToTargetExponent_eq e hlow, shiftRight_exact]
  rcases hhigh.lt_or_eq with hlt | rfl
  · rw [surplusBits_of_lt hlt]
    exact ⟨m, e, Nat.div_one m, rfl, hlow, hlt, Nat.le_succ e, rfl⟩
  · exact ⟨2 ^ 52, e + 1, rfl, rfl, Nat.le_refl _, by decide, Nat.le_refl _,
      by rw [Nat.pow_succ]; omega⟩

/-- Rounding a number gives the nearest one, at its exponent. -/
theorem holds_roundWithAccuracy (s : Sign) {m e n : Nat} (h : 2 ^ 52 ≤ m)
    (hexponent : e + surplusBits m ≤ 2044) (hvalue : nearestNat m * 2 ^ e = n * 2 ^ unitExponent) :
    Holds (roundWithAccuracy Format.binary64 s m ((e : Int) - unitExponent) .exact)
      (s.apply n) := by
  obtain ⟨hleast, hgreatest⟩ := quotient_bounds h
  have hround := roundQuotient_cases m (2 ^ surplusBits m)
  obtain ⟨m', e', hm', he', hlow, hhigh, hless, hsame⟩ :=
    exists_shiftToTargetExponent (e + surplusBits m) (m := roundQuotient m (2 ^ surplusBits m))
      (by omega) (by omega)
  have hpos : 0 < m' := by omega
  have heq : roundWithAccuracy Format.binary64 s m ((e : Int) - unitExponent) .exact =
      .finite s m' ((e' : Int) - unitExponent) hpos := by
    simp only [roundWithAccuracy, shiftToTargetExponent_eq e h, roundedMantissa_shiftRight, hm',
      he', dif_neg hpos.ne']
  rw [nearestNat, Nat.mul_assoc, ← Nat.pow_add, Nat.add_comm] at hvalue
  rw [heq]
  exact .finite s m' e' n hpos hlow hhigh (by omega) (hsame.trans hvalue)

/-- What a number holds that is packed into bits. -/
theorem unpack_ofModel_pack {u : UnpackedFloat} {a : Int} (h : Holds u a) :
    Holds (Float.ofModel (.pack u)).toModel.unpack a := by
  have hunpack : (Float.ofModel (.pack u)).toModel.unpack =
      unpack Format.binary64 (pack Format.binary64 u) := rfl
  rwa [hunpack, h.unpack_pack]

theorem holds_neg {x : Float} {a : Int} (h : Holds x.toModel.unpack a) :
    Holds x.neg.toModel.unpack (-a) :=
  unpack_ofModel_pack h.neg

/-- A word of at most 53 bits is kept as it is. -/
theorem holds_toFloat {n : Nat} (h : n < 2 ^ 53) : Holds n.toUInt64.toFloat.toModel.unpack n := by
  have hword : n.toUInt64.toNat = n := by
    rw [Nat.toUInt64_eq, UInt64.toNat_ofNat']
    exact Nat.mod_eq_of_lt (by omega)
  have hfloat : n.toUInt64.toFloat =
      .ofModel (.pack (UnpackedFloat.normalize Format.binary64 n 0 .positive)) := by
    conv_rhs => rw [← hword]
    rfl
  rw [hfloat]
  refine unpack_ofModel_pack ?_
  rcases Nat.eq_zero_or_pos n with rfl | hpos
  · exact .zero .positive
  · have hlog : n.log2 ≤ 52 := Nat.lt_succ_iff.mp ((Nat.log2_lt hpos.ne').mpr h)
    obtain ⟨k, hk⟩ := Nat.exists_eq_add_of_le hlog
    have hlow : 2 ^ 52 ≤ n * 2 ^ k := by
      rw [hk, Nat.pow_add]
      exact Nat.mul_le_mul_right _ (Nat.log2_self_le hpos.ne')
    have hhigh : n * 2 ^ k < 2 ^ 53 := by
      have hbits : 2 ^ 53 = 2 ^ (n.log2 + 1) * 2 ^ k := by
        rw [← Nat.pow_add]
        congr 1
        omega
      rw [hbits]
      exact Nat.mul_lt_mul_of_pos_right Nat.lt_log2_self (Nat.two_pow_pos k)
    have hunit : unitExponent = 1074 := rfl
    have hround : UnpackedFloat.normalize Format.binary64 n 0 .positive =
        roundWithAccuracy Format.binary64 .positive (n * 2 ^ k)
          (((unitExponent - k : Nat) : Int) - unitExponent) .exact := by
      have htarget : Format.binary64.targetExponent (Float.Model.totalExponent n 0) =
          -(k : Int) := by
        have hbits : (Format.binary64.mantissaBits : Int) = 53 := rfl
        have hleast : Format.binary64.minExponent = -1074 := rfl
        rw [Format.targetExponent, Float.Model.totalExponent, hbits, hleast]
        omega
      have hexponent : (((unitExponent - k : Nat) : Int) - unitExponent) = 0 - k := by omega
      rw [UnpackedFloat.normalize, Int.compare_eq_gt.mpr (by omega)]
      simp only [UnpackedFloat.round, htarget, decreaseExponent, Int.toNat_natCast, Int.sub_neg,
        Int.zero_add, Nat.shiftLeft_eq, hexponent]
    rw [hround]
    refine holds_roundWithAccuracy .positive hlow ?_ ?_
    · rw [surplusBits_of_lt hhigh]
      omega
    · rw [nearestNat_of_lt hhigh, Nat.mul_assoc, ← Nat.pow_add]
      congr 2
      omega

/-- The exponent of an integer of 64 bits is near the one of one. -/
theorem exponent_bounds {m e n unit : Nat} (hlow : 2 ^ 52 ≤ m) (hhigh : m < 2 ^ 53) (hn : 0 < n)
    (hless : n < 2 ^ 64) (hvalue : m * 2 ^ e = n * 2 ^ unit) :
    unit < 53 + e ∧ 52 + e < 64 + unit := by
  have hbelow : 2 ^ unit < 2 ^ (53 + e) :=
    calc 2 ^ unit ≤ n * 2 ^ unit := Nat.le_mul_of_pos_left _ hn
      _ = m * 2 ^ e := hvalue.symm
      _ < 2 ^ 53 * 2 ^ e := Nat.mul_lt_mul_of_pos_right hhigh (Nat.two_pow_pos e)
      _ = 2 ^ (53 + e) := (Nat.pow_add 2 53 e).symm
  have habove : 2 ^ (52 + e) < 2 ^ (64 + unit) :=
    calc 2 ^ (52 + e) = 2 ^ 52 * 2 ^ e := Nat.pow_add 2 52 e
      _ ≤ m * 2 ^ e := Nat.mul_le_mul_right _ hlow
      _ = n * 2 ^ unit := hvalue
      _ < 2 ^ 64 * 2 ^ unit := Nat.mul_lt_mul_of_pos_right hless (Nat.two_pow_pos unit)
      _ = 2 ^ (64 + unit) := (Nat.pow_add 2 64 unit).symm
  exact ⟨(Nat.pow_lt_pow_iff_right (by decide)).mp hbelow,
    (Nat.pow_lt_pow_iff_right (by decide)).mp habove⟩

/-- Multiplication by one changes no integer. -/
theorem holds_mul_one {x : Float} {a : Int} (h : Holds x.toModel.unpack a)
    (hless : a.natAbs < 2 ^ 64) :
    Holds (x * Float.ofBits 0x3FF0000000000000).toModel.unpack a := by
  have hone : (Float.ofBits 0x3FF0000000000000).toModel.unpack =
      .finite .positive (2 ^ 52) (-52) (by decide) := rfl
  have hmul : x * Float.ofBits 0x3FF0000000000000 = .ofModel (.pack (mul Format.binary64
      x.toModel.unpack (.finite .positive (2 ^ 52) (-52) (by decide)))) := by
    rw [← hone]
    rfl
  rw [hmul]
  refine unpack_ofModel_pack ?_
  generalize x.toModel.unpack = u at h ⊢
  cases h with
  | zero s => exact .zero _
  | finite s m e n hpos hlow hhigh hexponent hvalue =>
      have hn : n < 2 ^ 64 := by cases s <;> simpa [Sign.apply] using hless
      have hbounds := exponent_bounds hlow hhigh (pos_of_value hpos hvalue) hn hvalue
      have hunit : unitExponent = 1074 := rfl
      have hsign : s * .positive = s := by cases s <;> rfl
      have hshift : (e : Int) - unitExponent + -52 = ((e - 52 : Nat) : Int) - unitExponent := by
        omega
      rw [mul, hsign, hshift]
      refine holds_roundWithAccuracy s (Nat.le_trans hlow (Nat.le_mul_of_pos_right m (by decide)))
        ?_ ?_
      · rw [surplusBits_mul hlow, surplusBits_of_lt hhigh]
        omega
      · rw [nearestNat_mul_of_lt hlow hhigh, Nat.mul_assoc, ← Nat.pow_add,
          Nat.add_sub_cancel' (by omega), hvalue]

/-- A number of more than 53 bits is rounded to the nearest one. -/
theorem holds_ofScientific {n : Nat} (hlow : 2 ^ 53 ≤ n) (hhigh : n < 2 ^ 64) :
    Holds (UnpackedFloat.ofScientific Format.binary64 n 0) (nearestNat n) := by
  have hbits : Format.binary64.mantissaBits = 53 := rfl
  have hunit : unitExponent = 1074 := rfl
  have hrange : (2 : Int) ^ Format.binary64.exponentBits = 2048 := rfl
  have hshift : -((53 : Nat) : Int) + 0 = ((unitExponent - 53 : Nat) : Int) - unitExponent := by
    omega
  have hround : UnpackedFloat.ofScientific Format.binary64 n 0 =
      roundWithAccuracy Format.binary64 .positive (n * 2 ^ 53)
        (((unitExponent - 53 : Nat) : Int) - unitExponent) .exact := by
    rw [UnpackedFloat.ofScientific, dif_neg (by omega), hrange, if_neg (by omega),
      if_neg (by omega), if_pos (Int.le_refl 0), mul, hbits, hshift, Int.toNat_zero, Nat.pow_zero,
      Nat.mul_one, Nat.shiftLeft_eq]
    rfl
  have hlog : n.log2 < 64 := (Nat.log2_lt (by omega)).mpr hhigh
  have hsurplus : surplusBits n ≤ 11 := by
    unfold surplusBits
    omega
  rw [hround]
  refine holds_roundWithAccuracy .positive (by omega) ?_ ?_
  · rw [surplusBits_mul (by omega)]
    omega
  · rw [nearestNat_mul (by omega), Nat.mul_assoc, ← Nat.pow_add, Nat.add_sub_cancel' (by omega)]

/-- The double of a number holds the nearest number. -/
theorem holds_ofNat {n : Nat} (h : n < 2 ^ 64) :
    Holds (Float.ofNat n).toModel.unpack (nearestNat n) := by
  rcases Nat.lt_or_ge n (2 ^ 53) with hlt | hge
  · have hfloat : Float.ofNat n = n.toUInt64.toFloat * Float.ofBits 0x3FF0000000000000 := by
      exact dif_pos ⟨hlt, by decide⟩
    rw [hfloat, nearestNat_of_lt hlt]
    exact holds_mul_one (holds_toFloat hlt) (by simpa using h)
  · have hfloat : Float.ofNat n =
        .ofModel (.pack (UnpackedFloat.ofScientific Format.binary64 n 0)) := by
      exact dif_neg fun hsmall => absurd hsmall.1 (Nat.not_lt.mpr hge)
    rw [hfloat]
    exact unpack_ofModel_pack (holds_ofScientific hge h)

/-- The double of an integer holds the nearest integer. -/
theorem holds_ofInt {n : Int} (h : n.natAbs < 2 ^ 64) :
    Holds (Float.ofInt n).toModel.unpack (nearest n) := by
  rcases n with n | n
  · exact holds_ofNat h
  · exact holds_neg (holds_ofNat h)

/-! ### Comparing -/

section Comparing

variable {x y : Float} {a b : Int} (hx : Holds x.toModel.unpack a) (hy : Holds y.toModel.unpack b)

include hx hy

theorem lt_iff_of_holds : x < y ↔ a < b := by
  have hlt : x < y ↔ (x.toModel.unpack.compare y.toModel.unpack == some .lt) = true :=
    decide_eq_true_iff
  rw [hlt, hx.compare hy, beq_iff_eq, Option.some.injEq, Int.compare_eq_lt]

theorem le_iff_of_holds : x ≤ y ↔ a ≤ b := by
  have hle : x ≤ y ↔ (x.toModel.unpack.compare y.toModel.unpack).any (·.isLE) = true :=
    decide_eq_true_iff
  rw [hle, hx.compare hy, Option.any_some, Int.isLE_compare]

theorem beq_iff_of_holds : (x == y) = true ↔ a = b := by
  have hbeq : (x == y) = true ↔
      (x.toModel.unpack.compare y.toModel.unpack == some .eq) = true := Iff.rfl
  rw [hbeq, hx.compare hy, beq_iff_eq, Option.some.injEq, Int.compare_eq_eq]

end Comparing

end Double

end PatternMarkup
