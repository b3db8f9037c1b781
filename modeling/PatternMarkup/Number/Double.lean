import PatternMarkup.Number.Numeral
import PatternMarkup.Number.Shortest
/-!
The numbers the program runs on: floating-point numbers of 64 bits. The text of one is its
shortest decimal in a given layout; remainders are computed exactly on the significands.
-/

namespace PatternMarkup

namespace Double

/-- A finite number as `significand * 2 ^ exponent`, its sign aside. -/
structure Parts where
  negative : Bool
  significand : Nat
  exponent : Int
deriving Repr

/-- The leading bit of a normal significand, which is not stored. -/
def leadingBit : Nat := 1 <<< 52

/-- The exponent field of a number's bits. -/
def exponentField (x : Float) : Nat := (x.toBits.toNat >>> 52) % 2048

/-- The sign, significand and exponent of a finite number. -/
def parts (x : Float) : Parts :=
  let bits := x.toBits.toNat
  let fraction := bits % leadingBit
  let field := exponentField x
  let negative := bits >>> 63 == 1
  if field = 0 then ⟨negative, fraction, -1074⟩
  else ⟨negative, fraction + leadingBit, (field : Int) - 1075⟩

/-- The text of a number in a layout. -/
def write (layout : NumberLayout) (x : Float) : String :=
  if x.isNaN then "NaN"
  else
    let p := parts x
    let sign := if p.negative then "-" else ""
    if x.isInf then sign ++ "inf"
    else if p.significand = 0 then sign ++ layout.zeroText
    else
      let closeBelow := p.significand == leadingBit && decide (1 < exponentField x)
      sign ++ layout.write (Neighbourhood.ofBinary p.significand p.exponent closeBelow).shortest

/-- The remainder of a division whose quotient is cut off toward zero; it has the sign of the
dividend. -/
def rem (x y : Float) : Float :=
  if !x.isFinite || y.isNaN || y == 0.0 then 0.0 / 0.0
  else if !y.isFinite then x
  else
    let a := parts x
    let b := parts y
    let exponent := min a.exponent b.exponent
    let r := (a.significand <<< (a.exponent - exponent).toNat) %
      (b.significand <<< (b.exponent - exponent).toNat)
    let size := Float.scaleB (Float.ofNat r) exponent
    if a.negative then -size else size

/-- The number nearest to `digits * 10 ^ exponent`. Beyond `10 ^ 400` it is infinite, below
`10 ^ (-400)` it is zero. -/
def ofDecimal (digits : Nat) (exponent : Int) : Float :=
  if digits = 0 then 0.0
  else
    let first := exponent + (digits.repr.length : Int)
    if 400 < first then 1.0 / 0.0
    else if first < -400 then 0.0
    else Float.ofScientific digits (decide (exponent < 0)) exponent.natAbs

end Double

instance : Number Float where
  decLt := inferInstance
  decLe := inferInstance
  ofInt := Float.ofInt
  ofDecimal := Double.ofDecimal
  toInt x := x.toInt64.toInt
  isFinite := Float.isFinite
  abs := Float.abs
  floor := Float.floor
  ceil := Float.ceil
  round := Float.round
  sqrt := Float.sqrt
  sin := Float.sin
  cos := Float.cos
  tan := Float.tan
  atan2 := Float.atan2
  pow := Float.pow
  rem := Double.rem
  text := Double.write NumberLayout.plain

/-- Reads a number given on the command line: a numeral, `inf`, `infinity` or `nan`, the words
in any case and with an optional sign. -/
def Double.read? (text : List Char) : Option Float :=
  match Numeral.read? text with
  | some numeral => some numeral.value
  | none =>
      let (negative, body) := splitSign text
      let word := String.ofList (body.map Char.toLower)
      let size? : Option Float :=
        if word = "inf" || word = "infinity" then some (1.0 / 0.0)
        else if word = "nan" then some (0.0 / 0.0)
        else none
      size?.map fun size => if negative then -size else size

end PatternMarkup
