/-!
The arithmetic a document is evaluated in. Formulas, geometry and drawing are written over any
type with these operations, so that what they do can be stated of exact numbers as well as of
the floating-point numbers the program runs on. The class carries operations and no laws.
-/

namespace PatternMarkup

/-- The operations a type of numbers offers to documents. -/
class Number (α : Type) extends Add α, Sub α, Mul α, Div α, Neg α, LT α, LE α, BEq α where
  decLt : DecidableLT α
  decLe : DecidableLE α
  /-- The number nearest to an integer. -/
  ofInt : Int → α
  /-- The number nearest to `digits * 10 ^ exponent`. -/
  ofDecimal : Nat → Int → α
  /-- The integer part, brought into the range of 64-bit integers; zero if there is none. -/
  toInt : α → Int
  isFinite : α → Bool
  abs : α → α
  floor : α → α
  ceil : α → α
  /-- The nearest whole number; a half goes away from zero. -/
  round : α → α
  sqrt : α → α
  sin : α → α
  cos : α → α
  tan : α → α
  atan2 : α → α → α
  pow : α → α → α
  /-- The remainder of a division whose quotient is cut off toward zero. -/
  rem : α → α → α
  /-- The number as a document shows it, positional and without an exponent. -/
  text : α → String

attribute [reducible, instance] Number.decLt Number.decLe

namespace Number

variable {α : Type} [Number α]

/-- The number zero. -/
def zero : α := ofInt 0

/-- The number one. -/
def one : α := ofInt 1

/-- The number two. -/
def two : α := ofInt 2

/-- One half. -/
def half : α := ofDecimal 5 (-1)

/-- Twice the distance at which one ends to be distinguishable: `2 ^ (-52)`. -/
def epsilon : α := one / ofInt 4503599627370496

/-- Whether the value is not a number: no such value equals itself. -/
def isNaN (x : α) : Bool := !(x == x)

/-- The number without its fractional part. -/
def trunc (x : α) : α := if x < zero then ceil x else floor x

/-- Whether the fractional part is zero; no infinity is whole. -/
def isWhole (x : α) : Bool := x - trunc x == zero

/-- The smaller of two numbers; an operand that is not a number gives way. -/
def min (x y : α) : α := if isNaN x then y else if y < x then y else x

/-- The larger of two numbers; an operand that is not a number gives way. -/
def max (x y : α) : α := if isNaN x then y else if x < y then y else x

/-- The number if it is positive, else zero. -/
def positivePart (x : α) : α := if zero < x then x else zero

/-- The number brought between two bounds. -/
def clamp (x low high : α) : α := if x < low then low else if high < x then high else x

/-- The remainder that is never negative. -/
def remEuclid (x y : α) : α :=
  let r := rem x y
  if r < zero then r + abs y else r

/-- Radians of an angle in degrees. -/
def radians (degrees : α) : α := degrees * ofDecimal 17453292519943295 (-18)

/-- Degrees of an angle in radians. -/
def degrees (radians : α) : α := radians * ofDecimal 5729577951308232 (-14)

/-- The least 64-bit integer. -/
def leastInt : Int := -9223372036854775808

/-- The greatest 64-bit integer. -/
def greatestInt : Int := 9223372036854775807

/-- Whether an integer fits 64 bits. -/
def fitsInt (n : Int) : Bool := decide (leastInt ≤ n ∧ n ≤ greatestInt)

/-- The integer part as a 64-bit integer. -/
def toInt64 (x : α) : Int64 := Int64.ofInt (toInt x)

/-- The number nearest to a 64-bit integer. -/
def ofInt64 (n : Int64) : α := ofInt n.toInt

/-- The number nearest to a count. -/
def ofNat (n : Nat) : α := ofInt n

/-- The text of a value: whole numbers below `10 ^ 15` are written as integers. -/
def valueText (x : α) : String :=
  if isWhole x && decide (abs x < ofDecimal 1 15) then toString (toInt x) else text x

end Number

end PatternMarkup
