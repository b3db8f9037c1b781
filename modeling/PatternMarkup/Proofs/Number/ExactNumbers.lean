import Mathlib.Analysis.SpecialFunctions.Complex.Arg
import Mathlib.Analysis.SpecialFunctions.Pow.Real
import Mathlib.Data.Rat.Floor
import Mathlib.Data.Rat.Sqrt
import PatternMarkup.Number.Basic
/-!
Exact numbers. What is said of geometry often holds up to rounding only; of exact numbers it holds
as it stands. Their arithmetic is that of an ordered field, no number is infinite or undefined, and
a root is exact wherever there is one.
-/

namespace PatternMarkup

/-- Numbers that are never rounded. Nothing is asked of the other functions: the angles, the
powers, the whole parts and the texts may be any. -/
class ExactNumber (α : Type) extends Number α, Field α, LinearOrder α, IsStrictOrderedRing α where
  beq_iff_eq : ∀ x y : α, (x == y) = true ↔ x = y
  ofInt_eq : ∀ n : Int, ofInt n = (n : α)
  ofDecimal_eq : ∀ (digits : Nat) (exponent : Int),
    ofDecimal digits exponent = (digits : α) * 10 ^ exponent
  isFinite_eq : ∀ x : α, isFinite x = true
  abs_eq : ∀ x : α, Number.abs x = |x|
  sqrt_mul_self : ∀ x : α, 0 ≤ x → sqrt (x * x) = x

namespace ExactNumber

open Classical in
/-- The real numbers, with any text for each. -/
@[reducible]
noncomputable def real (text : ℝ → String) : ExactNumber ℝ where
  __ := (inferInstance : Field ℝ)
  __ := (inferInstance : LinearOrder ℝ)
  __ := (inferInstance : IsStrictOrderedRing ℝ)
  beq x y := decide (x = y)
  decLt := inferInstance
  decLe := inferInstance
  ofInt n := n
  ofDecimal digits exponent := digits * 10 ^ exponent
  toInt x := max Number.leastInt (min (if x < 0 then ⌈x⌉ else ⌊x⌋) Number.greatestInt)
  isFinite _ := true
  abs x := |x|
  floor x := ⌊x⌋
  ceil x := ⌈x⌉
  round x := if x < 0 then ⌈x - 1 / 2⌉ else ⌊x + 1 / 2⌋
  sqrt := Real.sqrt
  sin := Real.sin
  cos := Real.cos
  tan := Real.tan
  atan2 y x := Complex.arg ⟨x, y⟩
  pow := Real.rpow
  rem x y := x - (if x / y < 0 then ⌈x / y⌉ else ⌊x / y⌋) * y
  text := text
  beq_iff_eq _ _ := decide_eq_true_iff
  ofInt_eq _ := rfl
  ofDecimal_eq _ _ := rfl
  isFinite_eq _ := rfl
  abs_eq _ := rfl
  sqrt_mul_self _ := Real.sqrt_mul_self

/-- The rational numbers, on which geometry can be evaluated. Angles and powers are seldom rational:
these functions, and the texts, are left blank. -/
@[reducible]
def rational : ExactNumber ℚ where
  __ := (inferInstance : Field ℚ)
  __ := (inferInstance : LinearOrder ℚ)
  __ := (inferInstance : IsStrictOrderedRing ℚ)
  beq x y := decide (x = y)
  decLt := inferInstance
  decLe := inferInstance
  ofInt n := n
  ofDecimal digits exponent := digits * 10 ^ exponent
  toInt x := max Number.leastInt (min (if x < 0 then ⌈x⌉ else ⌊x⌋) Number.greatestInt)
  isFinite _ := true
  abs x := |x|
  floor x := ⌊x⌋
  ceil x := ⌈x⌉
  round x := if x < 0 then ⌈x - 1 / 2⌉ else ⌊x + 1 / 2⌋
  sqrt := Rat.sqrt
  sin _ := 0
  cos _ := 0
  tan _ := 0
  atan2 _ _ := 0
  pow _ _ := 0
  rem x y := x - (if x / y < 0 then ⌈x / y⌉ else ⌊x / y⌋) * y
  text _ := ""
  beq_iff_eq _ _ := decide_eq_true_iff
  ofInt_eq _ := rfl
  ofDecimal_eq _ _ := rfl
  isFinite_eq _ := rfl
  abs_eq _ := rfl
  sqrt_mul_self x hx := (Rat.sqrt_eq x).trans (abs_of_nonneg hx)

variable {α : Type} [ExactNumber α]

theorem zero_eq : (Number.zero : α) = 0 := by
  unfold Number.zero
  rw [ofInt_eq, Int.cast_zero]

theorem one_eq : (Number.one : α) = 1 := by
  unfold Number.one
  rw [ofInt_eq, Int.cast_one]

theorem epsilon_pos : (0 : α) < Number.epsilon := by
  unfold Number.epsilon
  rw [one_eq, ofInt_eq]
  positivity

theorem positivePart_of_nonneg {x : α} (hx : 0 ≤ x) : Number.positivePart x = x := by
  unfold Number.positivePart
  rw [zero_eq]
  split
  · rfl
  · next h => exact le_antisymm hx (not_lt.mp h)

theorem max_eq (x y : α) : Number.max x y = max x y := by
  have hx : Number.isNaN x = false := by
    unfold Number.isNaN
    rw [(beq_iff_eq x x).mpr rfl]
    rfl
  unfold Number.max
  rw [hx]
  simp only [Bool.false_eq_true, if_false]
  split
  · next h => exact (max_eq_right h.le).symm
  · next h => exact (max_eq_left (not_lt.mp h)).symm

end ExactNumber

end PatternMarkup
