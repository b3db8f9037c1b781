import PatternMarkup.Number.Basic
/-!
Numerals: a sign, digits with an optional point, and an optional exponent. Reading is total and
keeps the value exact; only `Numeral.value` rounds.
-/

namespace PatternMarkup

/-- A numeral read from text: `digits * 10 ^ exponent`, negated if `negative` holds. -/
structure Numeral where
  negative : Bool
  digits : Nat
  exponent : Int
deriving Repr, DecidableEq, Inhabited

/-- The value of a run of ASCII digits, added to what `high` digits before them are worth. -/
def digitsValue (high : Nat) (text : List Char) : Nat :=
  text.foldl (fun n c => 10 * n + (c.toNat - '0'.toNat)) high

/-- A leading sign and what follows it; `true` for a minus. -/
def splitSign : List Char → Bool × List Char
  | '-' :: rest => (true, rest)
  | '+' :: rest => (false, rest)
  | text => (false, text)

namespace Numeral

/-- The sign at the start of a text. -/
def signPart : List Char → List Char
  | '+' :: _ => ['+']
  | '-' :: _ => ['-']
  | _ => []

/-- The exponent at the start of a text; without digits there is none. -/
def exponentPart (text : List Char) : List Char :=
  match text with
  | [] => []
  | e :: rest =>
      if e = 'e' ∨ e = 'E' then
        let sign := signPart rest
        let digits := (rest.drop sign.length).takeWhile Char.isDigit
        if digits.isEmpty then [] else e :: sign ++ digits
      else []

variable {α : Type} [Number α]

/-- The number the numeral denotes. -/
def value (n : Numeral) : α :=
  let size : α := Number.ofDecimal n.digits n.exponent
  if n.negative then -size else size

/-- The exponent after `e` or `E`, which takes digits up to the end of the text. -/
def readExponent? : List Char → Option Int
  | [] => some 0
  | c :: rest =>
      if c == 'e' || c == 'E' then
        let (negative, digits) := splitSign rest
        if digits.isEmpty || !digits.all Char.isDigit then none
        else
          let size : Int := digitsValue 0 digits
          some (if negative then -size else size)
      else none

/-- Reads the whole text as a numeral with at least one digit beside an optional point. -/
def read? (text : List Char) : Option Numeral :=
  let (negative, body) := splitSign text
  let whole := body.takeWhile Char.isDigit
  let afterWhole := body.dropWhile Char.isDigit
  let (fraction, tail) :=
    match afterWhole with
    | '.' :: rest => (rest.takeWhile Char.isDigit, rest.dropWhile Char.isDigit)
    | rest => ([], rest)
  if whole.isEmpty && fraction.isEmpty then none
  else
    (readExponent? tail).map fun exponent =>
      ⟨negative, digitsValue (digitsValue 0 whole) fraction, exponent - (fraction.length : Int)⟩

end Numeral

/-- Reads the whole text as a 64-bit integer: an optional sign and digits. -/
def readInt64? (text : List Char) : Option Int64 :=
  let (negative, digits) := splitSign text
  if digits.isEmpty || !digits.all Char.isDigit then none
  else
    let size : Int := digitsValue 0 digits
    let n := if negative then -size else size
    if Number.fitsInt n then some (Int64.ofInt n) else none

/-- Reads the whole text as a count below `2 ^ 32`. -/
def readCount? (text : List Char) : Option Nat :=
  if text.isEmpty || !text.all Char.isDigit then none
  else
    let n := digitsValue 0 text
    if n < 4294967296 then some n else none

/-- Reads `true` or `false`. -/
def readBool? (text : List Char) : Option Bool :=
  if text = "true".toList then some true
  else if text = "false".toList then some false
  else none

end PatternMarkup
