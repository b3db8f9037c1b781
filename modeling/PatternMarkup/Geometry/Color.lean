import PatternMarkup.Number.Basic
import PatternMarkup.Text.Hexadecimal
/-!
Colors with an opacity. Channels are numbers from zero to one; in text they are two
hexadecimal digits each.
-/

namespace PatternMarkup

/-- A color; the opacity is not multiplied into the other channels. -/
structure Color (α : Type) where
  r : α
  g : α
  b : α
  a : α
deriving Repr, BEq, DecidableEq, Inhabited

namespace Color

variable {α : Type} [Number α]

/-- A channel brought between zero and one. -/
def clampChannel (x : α) : α := Number.clamp x Number.zero Number.one

/-- Opaque black. -/
def black : Color α := ⟨Number.zero, Number.zero, Number.zero, Number.one⟩

/-- Opaque white. -/
def white : Color α := ⟨Number.one, Number.one, Number.one, Number.one⟩

/-- Black that cannot be seen. -/
def transparent : Color α := ⟨Number.zero, Number.zero, Number.zero, Number.zero⟩

/-- A color from channels counted up to 255 and an opacity. -/
def ofBytes (r g b a : α) : Color α :=
  let channel (x : α) : α := clampChannel (x / Number.ofInt 255)
  ⟨channel r, channel g, channel b, clampChannel a⟩

/-- The opaque gray of a brightness. -/
def gray (level : α) : Color α :=
  let channel := clampChannel level
  ⟨channel, channel, channel, Number.one⟩

/-- The channel of a byte. -/
def channelOfByte (n : Nat) : α := Number.ofNat n / Number.ofInt 255

/-- The color of hexadecimal digits: three, six, or eight with the opacity. -/
def ofHexDigits? (digits : List Nat) : Option (Color α) :=
  let channel (high low : Nat) : α := channelOfByte (16 * high + low)
  match digits with
  | [r, g, b] => some ⟨channel r r, channel g g, channel b b, Number.one⟩
  | [r, r', g, g', b, b'] => some ⟨channel r r', channel g g', channel b b', Number.one⟩
  | [r, r', g, g', b, b', a, a'] =>
      some ⟨channel r r', channel g g', channel b b', channel a a'⟩
  | _ => none

/-- Reads a color in hexadecimal digits; a leading `#` may be left out. -/
def ofHex? (text : List Char) : Option (Color α) :=
  let digits :=
    match text with
    | '#' :: rest => rest
    | _ => text
  (digits.mapM hexDigit?).bind ofHexDigits?

/-- The colors that have a name. -/
def named? (name : String) : Option (Color α) :=
  match name with
  | "black" => some black
  | "white" => some white
  | "red" => some ⟨Number.one, Number.zero, Number.zero, Number.one⟩
  | "green" => some ⟨Number.zero, Number.half, Number.zero, Number.one⟩
  | "blue" => some ⟨Number.zero, Number.zero, Number.one, Number.one⟩
  | "gray" => some (gray Number.half)
  | "grey" => some (gray Number.half)
  | "transparent" => some transparent
  | _ => none

/-- The same color with another opacity. -/
def withAlpha (c : Color α) (a : α) : Color α := { c with a := clampChannel a }

/-- Whether the color cannot be seen. -/
def isTransparent (c : Color α) : Bool := decide (c.a ≤ Number.zero)

/-- A channel as a byte. -/
def byteOf (x : α) : Nat :=
  (Number.toInt (Number.round (clampChannel x * Number.ofInt 255))).toNat

/-- The color in hexadecimal digits; the opacity is left out if the color is opaque. -/
def text (c : Color α) : String :=
  let opacity := if Number.one ≤ c.a then [] else hexByte (byteOf c.a)
  String.ofList ('#' :: hexByte (byteOf c.r) ++ hexByte (byteOf c.g) ++ hexByte (byteOf c.b) ++
    opacity)

end Color

end PatternMarkup
