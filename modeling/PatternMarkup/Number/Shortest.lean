/-!
The shortest decimal of a binary fraction: among the decimals that lie in the interval of
numbers nearest to it, those with the fewest digits, and among them the one nearest to it. Also how
a decimal is written: which exponents are written positionally, and whether a whole number keeps a
fraction. The three layouts in use are values of one record.
-/

namespace PatternMarkup

/-- The decimal `digits * 10 ^ exponent`. -/
structure Decimal where
  digits : Nat
  exponent : Int
deriving Repr, DecidableEq, Inhabited

/-- The number `value / unit` and the interval from `low / unit` to `high / unit` of what is
nearest to it; the ends belong to the interval if `closed` holds. -/
structure Neighbourhood where
  value : Nat
  low : Nat
  high : Nat
  unit : Nat
  closed : Bool
deriving Repr, Inhabited

namespace Neighbourhood

/-- Whether `point / unit` lies in the interval. -/
def holds (n : Neighbourhood) (point : Nat) : Bool :=
  if n.closed then decide (n.low ≤ point ∧ point ≤ n.high)
  else decide (n.low < point ∧ point < n.high)

/-- The same numbers, multiplied by `factor` and divided by `divisor`. -/
def scale (n : Neighbourhood) (factor divisor : Nat) : Neighbourhood :=
  ⟨n.value * factor, n.low * factor, n.high * factor, n.unit * divisor, n.closed⟩

/-- The multiple of the unit that lies in the interval and nearest to the value, if there is
one; of two equally near ones the larger. -/
def nearestMultiple? (n : Neighbourhood) : Option Nat :=
  let below := n.value / n.unit
  let above := below + 1
  match n.holds (below * n.unit), n.holds (above * n.unit) with
  | true, true =>
      if above * n.unit - n.value ≤ n.value - below * n.unit then some above else some below
  | true, false => some below
  | false, true => some above
  | false, false => none

/-- The decimal of the coarsest grid, from `10 ^ exponent` down, that meets the interval. -/
def coarsest (n : Neighbourhood) (exponent : Int) : Nat → Decimal
  | 0 => ⟨n.value / n.unit, 0⟩
  | steps + 1 =>
      let grid :=
        if 0 ≤ exponent then n.scale 1 (Nat.pow 10 exponent.toNat)
        else n.scale (Nat.pow 10 (-exponent).toNat) 1
      match grid.nearestMultiple? with
      | some digits => ⟨digits, exponent⟩
      | none => n.coarsest (exponent - 1) steps

/-- An exponent such that the value lies below ten to its power, and not far below. -/
def magnitude (n : Neighbourhood) : Int :=
  if n.unit ≤ n.value then ((n.value / n.unit).repr.length : Int)
  else 1 - ((n.unit / n.value).repr.length : Int)

/-- The shortest decimal in the interval. -/
def shortest (n : Neighbourhood) : Decimal := n.coarsest n.magnitude 24

end Neighbourhood

/-- The neighbourhood of `significand * 2 ^ exponent`: half a step to either side, a quarter
below where the numbers underneath lie twice as close. -/
def Neighbourhood.ofBinary (significand : Nat) (exponent : Int) (closeBelow : Bool) :
    Neighbourhood :=
  let up := 1 <<< exponent.toNat
  let value := 4 * significand * up
  ⟨value, value - (if closeBelow then up else 2 * up), value + 2 * up,
    4 <<< (-exponent).toNat, significand % 2 == 0⟩

/-! ### How a decimal is written -/

/-- The decisions of a number format. Exponents are those of the first digit. -/
structure NumberLayout where
  /-- The least exponent written positionally, if there is one. -/
  least : Option Int
  /-- The greatest exponent written positionally, if there is one. -/
  greatest : Option Int
  /-- Whether a whole number ends in a zero fraction. -/
  wholeFraction : Bool
  /-- Whether an exponent that is not negative has a sign. -/
  signedExponent : Bool
deriving Repr, DecidableEq

namespace NumberLayout

/-- Document text: always positional, whole numbers without a fraction. -/
def plain : NumberLayout := ⟨none, none, false, false⟩

/-- Data text: positional from `10 ^ (-4)` up to, not including, `10 ^ 16`. -/
def data : NumberLayout := ⟨some (-4), some 15, true, false⟩

/-- Report text: positional from `10 ^ (-5)` up to, not including, `10 ^ 16`; every exponent has a
sign. -/
def report : NumberLayout := ⟨some (-5), some 15, true, true⟩

/-- Whether a first digit at `exponent` is written positionally. -/
def isPositional (layout : NumberLayout) (exponent : Int) : Bool :=
  layout.least.all (fun e => decide (e ≤ exponent)) &&
    layout.greatest.all (fun e => decide (exponent ≤ e))

/-- The digits with a point at the place their exponent asks for. -/
def positional (layout : NumberLayout) (digits : String) (exponent : Int) : String :=
  let count := digits.length
  if 0 ≤ exponent then
    digits ++ "".pushn '0' exponent.toNat ++ (if layout.wholeFraction then ".0" else "")
  else
    let places := (-exponent).toNat
    if places < count then
      String.ofList (digits.toList.take (count - places)) ++ "." ++
        String.ofList (digits.toList.drop (count - places))
    else "0." ++ "".pushn '0' (places - count) ++ digits

/-- The digits with a point after the first and the exponent of that first digit. -/
def scientific (layout : NumberLayout) (digits : String) (exponent : Int) : String :=
  let first := exponent + (digits.length - 1 : Nat)
  let mark := if layout.signedExponent && 0 ≤ first then "e+" else "e"
  match digits.toList with
  | [d] => String.ofList [d] ++ mark ++ toString first
  | d :: rest => String.ofList (d :: '.' :: rest) ++ mark ++ toString first
  | [] => "0"

/-- The text of a positive decimal. -/
def write (layout : NumberLayout) (decimal : Decimal) : String :=
  let digits := decimal.digits.repr
  if layout.isPositional (decimal.exponent + (digits.length - 1 : Nat)) then
    layout.positional digits decimal.exponent
  else layout.scientific digits decimal.exponent

/-- The text of zero. -/
def zeroText (layout : NumberLayout) : String := if layout.wholeFraction then "0.0" else "0"

end NumberLayout

end PatternMarkup
