/-!
Hexadecimal digits: reading a digit and writing a byte or a unit of sixteen bits.
-/

namespace PatternMarkup

/-- The value of a hexadecimal digit. -/
def hexDigit? (c : Char) : Option Nat :=
  if c.isDigit then some (c.toNat - '0'.toNat)
  else if 'a' ≤ c ∧ c ≤ 'f' then some (c.toNat - 'a'.toNat + 10)
  else if 'A' ≤ c ∧ c ≤ 'F' then some (c.toNat - 'A'.toNat + 10)
  else none

/-- Two hexadecimal digits. -/
def hexByte (n : Nat) : List Char := [Nat.digitChar (n / 16), Nat.digitChar (n % 16)]

/-- Four hexadecimal digits. -/
def hexUnit (n : Nat) : List Char := hexByte (n / 256) ++ hexByte (n % 256)

end PatternMarkup
