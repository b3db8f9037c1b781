import PatternMarkup.Json.Fault
import PatternMarkup.Text.Bytes
import PatternMarkup.Text.Hexadecimal
/-!
The inside of a JSON string, and the two ways to read it: for its text, or only for its end.
Faults are given at bytes, so that a fault may lie inside a character.
-/

namespace PatternMarkup.JsonString

/-- The value of four hexadecimal digits. -/
def hexUnit? (a b c d : Char) : Option Nat := do
  return ((16 * (16 * (16 * (← hexDigit? a) + (← hexDigit? b)) + (← hexDigit? c))) +
    (← hexDigit? d))

/-- The character that a backslash and one letter stand for. -/
def simpleEscape? (c : Char) : Option Char :=
  match c with
  | '"' => some '"'
  | '\\' => some '\\'
  | '/' => some '/'
  | 'b' => some '\x08'
  | 'f' => some '\x0c'
  | 'n' => some '\n'
  | 'r' => some '\r'
  | 't' => some '\t'
  | _ => none

/-- Whether a code unit is the first of two. -/
def isHighSurrogate (n : Nat) : Bool := 0xD800 ≤ n && n < 0xDC00

/-- Whether a code unit is the second of two. -/
def isLowSurrogate (n : Nat) : Bool := 0xDC00 ≤ n && n < 0xE000

/-- The character of two code units. -/
def surrogatePair (high low : Nat) : Char :=
  Char.ofNat (0x10000 + (high - 0xD800) * 0x400 + (low - 0xDC00))

/-- The fault of four bytes from `offset` on that are no digits, or are not there. -/
def unitFault (offset : Nat) (text : List Char) : JsonFault :=
  let size := byteLength (text.take 4)
  if size < 4 then ⟨.stringBreaksOff, offset + size⟩ else ⟨.invalidEscape, offset + 4⟩

/-- The fault of what stands from `offset` on in place of a second code unit. -/
def secondUnitFault (offset : Nat) : List Char → JsonFault
  | [] => ⟨.stringBreaksOff, offset⟩
  | ['\\'] => ⟨.stringBreaksOff, offset + 1⟩
  | '\\' :: 'u' :: rest => unitFault (offset + 2) rest
  | '\\' :: _ => ⟨.missingSurrogate, offset + 2⟩
  | _ => ⟨.missingSurrogate, offset + 1⟩

/-- The text of a string whose inside goes on at the byte `offset`; `front` holds the characters
before it from the last to the first. A code unit that is the first of two needs the second
right after it, and no other may be a second one. -/
def text (offset : Nat) (front : List Char) : List Char → Except JsonFault String
  | [] => .error ⟨.stringBreaksOff, offset⟩
  | '"' :: _ => .ok (String.ofList front.reverse)
  | ['\\'] => .error ⟨.stringBreaksOff, offset + 1⟩
  | '\\' :: 'u' :: a :: b :: c :: d :: rest =>
      match hexUnit? a b c d with
      | none => .error (unitFault (offset + 2) [a, b, c, d])
      | some n =>
          if isLowSurrogate n then .error ⟨.loneSurrogate, offset + 6⟩
          else if isHighSurrogate n then
            match rest with
            | '\\' :: 'u' :: a' :: b' :: c' :: d' :: rest' =>
                match hexUnit? a' b' c' d' with
                | none => .error (unitFault (offset + 8) [a', b', c', d'])
                | some low =>
                    if isLowSurrogate low then
                      text (offset + 12) (surrogatePair n low :: front) rest'
                    else .error ⟨.loneSurrogate, offset + 12⟩
            | _ => .error (secondUnitFault (offset + 6) rest)
          else text (offset + 6) (Char.ofNat n :: front) rest
  | '\\' :: 'u' :: rest => .error (unitFault (offset + 2) rest)
  | '\\' :: e :: rest =>
      match simpleEscape? e with
      | some c => text (offset + 2) (c :: front) rest
      | none => .error ⟨.invalidEscape, offset + 2⟩
  | c :: rest =>
      if c.toNat < 32 then .error ⟨.controlCharacter, offset + 1⟩
      else text (offset + c.utf8Size) (c :: front) rest

/-- Passes over a string whose inside goes on at the byte `offset`, `count` characters being
passed already, and tells how many there are up to its end. Code units are not put together. -/
def pass (offset count : Nat) : List Char → Except JsonFault Unit × Nat
  | [] => (.error ⟨.stringBreaksOff, offset⟩, count)
  | '"' :: _ => (.ok (), count + 1)
  | ['\\'] => (.error ⟨.stringBreaksOff, offset + 1⟩, count)
  | '\\' :: 'u' :: a :: b :: c :: d :: rest =>
      match hexUnit? a b c d with
      | none => (.error (unitFault (offset + 2) [a, b, c, d]), count)
      | some _ => pass (offset + 6) (count + 6) rest
  | '\\' :: 'u' :: rest => (.error (unitFault (offset + 2) rest), count)
  | '\\' :: e :: rest =>
      match simpleEscape? e with
      | none => (.error ⟨.invalidEscape, offset + 2⟩, count)
      | some _ => pass (offset + 2) (count + 2) rest
  | c :: rest =>
      if c.toNat < 32 then (.error ⟨.controlCharacter, offset⟩, count)
      else pass (offset + c.utf8Size) (count + 1) rest

end PatternMarkup.JsonString
