import PatternMarkup.Json.Basic
import PatternMarkup.Json.StringText
/-!
The lexemes of a JSON text: brackets, separators, words, numbers and strings, each with the
bytes it covers. A text is cut up to its end even where it is not JSON; a lexeme that is not well
formed says so only when it is asked for its value.
-/

namespace PatternMarkup

/-- What a lexeme is. -/
inductive JsonLexemeKind where
  | openList
  | closeList
  | openObject
  | closeObject
  | comma
  | colon
  /-- A word that stands for a value. -/
  | word (value : Except JsonFault Json)
  | number (value : Except JsonFault Json)
  /-- A string: its text, and what is wrong with it if the text does not matter. -/
  | string (text : Except JsonFault String) (passed : Except JsonFault Unit)
  /-- A character with which no lexeme starts. -/
  | junk
deriving Inhabited

/-- A lexeme and the bytes it covers. -/
structure JsonLexeme where
  kind : JsonLexemeKind
  range : ByteRange
deriving Inhabited

namespace JsonLexeme

/-- A value and the number of the characters it was read from. -/
structure Reading where
  value : Except JsonFault Json
  count : Nat
deriving Inhabited

/-- The white space of JSON. -/
def isSpace (c : Char) : Bool := c == ' ' || c == '\n' || c == '\t' || c == '\r'

/-- Reads on in a word that has to be `word` to its end. -/
def readWord (value : Json) (offset count : Nat) : (word text : List Char) → Reading
  | [], _ => ⟨.ok value, count⟩
  | _ :: _, [] => ⟨.error ⟨.valueBreaksOff, offset⟩, count⟩
  | w :: word, c :: rest =>
      if w = c then readWord value (offset + 1) (count + 1) word rest
      else ⟨.error ⟨.expectedWord, offset + 1⟩, count⟩

/-- The number that the parts of a numeral denote, read up to the byte `stop`. An integer that
64 bits hold is kept as one; minus zero is none. -/
def numberOf (negative : Bool) (whole fraction : List Char) (exponent : Option Int)
    (stop : Nat) : Except JsonFault Json :=
  let digits := digitsValue (digitsValue 0 whole) fraction
  let n : Int := if negative then -(digits : Int) else digits
  let least : Int := if negative && digits == 0 then 1 else -9223372036854775808
  if fraction.isEmpty && exponent.isNone && least ≤ n && n ≤ 18446744073709551615 then
    .ok (.int n)
  else
    let numeral : Numeral := ⟨negative, digits, exponent.getD 0 - (fraction.length : Int)⟩
    let x : Float := numeral.value
    if x.isFinite then .ok (.float x) else .error ⟨.numberOutOfRange, stop⟩

/-- The greatest exponent that is read to its end. -/
def greatestExponent : Nat := 2147483647

/-- How many digits at the start of a run make a value of at most `greatestExponent`. -/
def exponentDigits (value : Nat) : List Char → Nat
  | [] => 0
  | c :: rest =>
      let next := digitsValue value [c]
      if next ≤ greatestExponent then exponentDigits next rest + 1 else 0

/-- Reads an exponent after its letter. An exponent so large that the number is out of range,
whatever its digits, is a fault at the digit that shows it. -/
def readExponent (negative : Bool) (whole fraction : List Char) (offset count : Nat)
    (text : List Char) : Reading :=
  let (minus, digits) := splitSign text
  let signed := text.length - digits.length
  let offset := offset + signed
  let count := count + signed
  match digits with
  | [] => ⟨.error ⟨.valueBreaksOff, offset⟩, count⟩
  | c :: _ =>
      if c.isDigit then
        let run := digits.takeWhile Char.isDigit
        let small := exponentDigits 0 run
        let count := count + run.length
        if small < run.length && !minus && digitsValue (digitsValue 0 whole) fraction != 0 then
          ⟨.error ⟨.numberOutOfRange, offset + small + 1⟩, count⟩
        else
          let size : Int := digitsValue 0 run
          ⟨numberOf negative whole fraction (some (if minus then -size else size))
            (offset + run.length), count⟩
      else ⟨.error ⟨.invalidNumber, offset + 1⟩, count⟩

/-- Reads what follows the whole part of a number, from the byte `offset` on. -/
def readFraction (negative : Bool) (whole : List Char) (offset count : Nat)
    (text : List Char) : Reading :=
  match text with
  | '.' :: rest =>
      let fraction := rest.takeWhile Char.isDigit
      let length := 1 + fraction.length
      match fraction, rest.dropWhile Char.isDigit with
      | [], [] => ⟨.error ⟨.valueBreaksOff, offset + 1⟩, count + 1⟩
      | [], _ => ⟨.error ⟨.invalidNumber, offset + 2⟩, count + 1⟩
      | _, c :: after =>
          if c = 'e' ∨ c = 'E' then
            readExponent negative whole fraction (offset + length + 1) (count + length + 1) after
          else ⟨numberOf negative whole fraction none (offset + length), count + length⟩
      | _, [] => ⟨numberOf negative whole fraction none (offset + length), count + length⟩
  | c :: rest =>
      if c = 'e' ∨ c = 'E' then readExponent negative whole [] (offset + 1) (count + 1) rest
      else ⟨numberOf negative whole [] none offset, count⟩
  | [] => ⟨numberOf negative whole [] none offset, count⟩

/-- Reads a number after its sign, from the byte `offset` on. A leading zero stands alone. -/
def readNumber (negative : Bool) (offset count : Nat) (text : List Char) : Reading :=
  match text with
  | [] => ⟨.error ⟨.valueBreaksOff, offset⟩, count⟩
  | '0' :: rest =>
      if (rest.takeWhile Char.isDigit).isEmpty then
        readFraction negative ['0'] (offset + 1) (count + 1) rest
      else ⟨.error ⟨.invalidNumber, offset + 2⟩, count + 1⟩
  | c :: _ =>
      if c.isDigit then
        let whole := text.takeWhile Char.isDigit
        readFraction negative whole (offset + whole.length) (count + whole.length)
          (text.dropWhile Char.isDigit)
      else ⟨.error ⟨.invalidNumber, offset + 1⟩, count⟩

/-- Reads the lexeme that starts with the given character at the byte `offset`, with the number
of its characters. -/
def read (offset : Nat) (c : Char) (rest : List Char) : JsonLexemeKind × Nat :=
  let word (value : Json) (letters : List Char) : JsonLexemeKind × Nat :=
    let reading := readWord value (offset + 1) 1 letters rest
    (.word reading.value, reading.count)
  match c with
  | '[' => (.openList, 1)
  | ']' => (.closeList, 1)
  | '{' => (.openObject, 1)
  | '}' => (.closeObject, 1)
  | ',' => (.comma, 1)
  | ':' => (.colon, 1)
  | '"' =>
      let (passed, count) := JsonString.pass (offset + 1) 1 rest
      (.string (JsonString.text (offset + 1) [] rest) passed, count)
  | 'n' => word .null ['u', 'l', 'l']
  | 't' => word (.bool true) ['r', 'u', 'e']
  | 'f' => word (.bool false) ['a', 'l', 's', 'e']
  | '-' =>
      let reading := readNumber true (offset + 1) 1 rest
      (.number reading.value, reading.count)
  | _ =>
      if c.isDigit then
        let reading := readNumber false offset 0 (c :: rest)
        (.number reading.value, reading.count)
      else (.junk, 1)

/-- The lexemes of a text that starts at the byte `offset`; `front` holds those before it from the
last to the first. -/
def scanFrom (front : List JsonLexeme) (offset : Nat) (text : List Char) : List JsonLexeme :=
  match text with
  | [] => front.reverse
  | c :: rest =>
      if isSpace c then scanFrom front (offset + c.utf8Size) rest
      else
        let (kind, count) := read offset c rest
        let stop := offset + byteLength ((c :: rest).take count)
        scanFrom (⟨kind, ⟨offset, stop⟩⟩ :: front) stop (rest.drop (count - 1))
termination_by text.length
decreasing_by
  · simp
  · simp only [List.length_drop, List.length_cons]; omega

/-- The lexemes of a text. -/
def scan (text : List Char) : List JsonLexeme := scanFrom [] 0 text

end JsonLexeme

end PatternMarkup
