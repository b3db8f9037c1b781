import PatternMarkup.Geometry.Path
import PatternMarkup.Number.Numeral
import PatternMarkup.Text.Bytes
/-!
Reading paths: letters for the steps, capital for absolute and small for relative coordinates,
and numbers. A letter stays in force for the numbers after it; after a move it is a line.
-/

namespace PatternMarkup

/-- What is wrong with a path, and at which byte. -/
inductive PathError where
  | missingMoveTo (offset : Nat)
  | unknownCommand (offset : Nat) (command : Char)
  | expectedNumber (offset : Nat)
deriving Repr, DecidableEq, Inhabited

namespace PathError

/-- What a report says about the error. -/
def message : PathError → String
  | missingMoveTo offset =>
      "path data must start with a move-to command (offset " ++ toString offset ++ ")"
  | unknownCommand offset command =>
      "unknown path command '" ++ String.ofList [command] ++ "' at offset " ++ toString offset
  | expectedNumber offset => "expected a number at offset " ++ toString offset

/-- The byte at which the error shows. -/
def offset : PathError → Nat
  | missingMoveTo offset => offset
  | unknownCommand offset _ => offset
  | expectedNumber offset => offset

end PathError

/-! ### Lexemes -/

/-- What the text of a path is made of. -/
inductive PathLexemeKind where
  | letter (c : Char)
  | number (n : Numeral)
  /-- A character that starts neither. -/
  | junk
deriving Repr, DecidableEq, Inhabited

/-- A lexeme and the byte where it starts. -/
structure PathLexeme where
  kind : PathLexemeKind
  offset : Nat
deriving Repr, DecidableEq, Inhabited

namespace PathLexeme

/-- Whether a character separates lexemes. -/
def isSeparator (c : Char) : Bool :=
  c == ' ' || c == '\t' || c == '\n' || c == '\x0c' || c == '\r' || c == ','

/-- The digits and the first point at the start of a text. -/
def mantissa (seenPoint : Bool) : List Char → List Char
  | [] => []
  | c :: rest =>
      if c.isDigit then c :: mantissa seenPoint rest
      else if c = '.' ∧ seenPoint = false then c :: mantissa true rest
      else []

/-- The characters of the number at the start of a text; none if no number starts there. -/
def numberPart (text : List Char) : List Char :=
  let sign := Numeral.signPart text
  let digits := mantissa false (text.drop sign.length)
  if digits.any Char.isDigit then
    let front := sign ++ digits
    front ++ Numeral.exponentPart (text.drop front.length)
  else []

/-- Reads the lexeme at the start of a text; also the number of its characters. -/
def read (c : Char) (rest : List Char) : PathLexemeKind × Nat :=
  if c.isAlpha then (.letter c, 1)
  else
    let part := numberPart (c :: rest)
    match Numeral.read? part with
    | some n => (.number n, part.length)
    | none => (.junk, 1)

/-- The lexemes of a text that starts at the byte `offset`. -/
def scan (offset : Nat) (text : List Char) : List PathLexeme :=
  match text with
  | [] => []
  | c :: rest =>
      if isSeparator c then scan (offset + c.utf8Size) rest
      else
        let (kind, count) := read c rest
        ⟨kind, offset⟩ ::
          scan (offset + byteLength ((c :: rest).take (max count 1))) (rest.drop (count - 1))
termination_by text.length
decreasing_by
  · simp
  · simp only [List.length_drop, List.length_cons]; omega

end PathLexeme

/-! ### Steps -/

/-- A path read in part. -/
structure PathProgress (α : Type) where
  /-- The steps read, the last one first. -/
  done : List (PathCommand α) := []
  /-- Where the last step ended. -/
  current : Point α
  /-- Where the last move went. -/
  start : Point α
  /-- The letter in force. -/
  letter : Option Char := none
  /-- Whether the letter in force has just been read. -/
  fresh : Bool := false
  /-- The numbers read for the next step, the last one first. -/
  numbers : List α := []

namespace PathProgress

variable {α : Type} [Number α]

/-- Nothing read yet. -/
def initial : PathProgress α := { current := Point.origin, start := Point.origin }

/-- Whether a number has to come next. -/
def owesNumber (p : PathProgress α) : Bool := p.fresh || !p.numbers.isEmpty

/-- The letters of the steps. -/
def letters : List Char :=
  ['M', 'm', 'L', 'l', 'H', 'h', 'V', 'v', 'C', 'c', 'Q', 'q', 'Z', 'z']

/-- The step that a letter and all its numbers stand for, the numbers from the last to the
first; nothing while numbers are missing. -/
def step? (p : PathProgress α) (letter : Char) (numbers : List α) : Option (PathCommand α) :=
  let relative := letter.isLower
  let base : Point α := if relative then p.current else Point.origin
  match letter.toUpper, numbers with
  | 'M', [y, x] => some (.moveTo (base + ⟨x, y⟩))
  | 'L', [y, x] => some (.lineTo (base + ⟨x, y⟩))
  | 'H', [x] => some (.lineTo ⟨if relative then p.current.x + x else x, p.current.y⟩)
  | 'V', [y] => some (.lineTo ⟨p.current.x, if relative then p.current.y + y else y⟩)
  | 'C', [y, x, y₂, x₂, y₁, x₁] =>
      some (.cubicTo (base + ⟨x₁, y₁⟩) (base + ⟨x₂, y₂⟩) (base + ⟨x, y⟩))
  | 'Q', [y, x, y₁, x₁] => some (.quadTo (base + ⟨x₁, y₁⟩) (base + ⟨x, y⟩))
  | _, _ => none

/-- Where a step ends, if it does not return to the start. -/
def endOf? : PathCommand α → Option (Point α)
  | .moveTo p => some p
  | .lineTo p => some p
  | .quadTo _ p => some p
  | .cubicTo _ _ p => some p
  | .close => none

/-- The letter in force after a step of the given one: moves go on as lines. -/
def continued (letter : Char) : Char :=
  if letter = 'M' then 'L' else if letter = 'm' then 'l' else letter

/-- Takes in a number. -/
def addNumber (p : PathProgress α) (letter : Char) (x : α) : PathProgress α :=
  let numbers := x :: p.numbers
  match p.step? letter numbers with
  | none => { p with numbers, fresh := false }
  | some command =>
      let current := (endOf? command).getD p.current
      { done := command :: p.done
        current
        start := if letter.toUpper = 'M' then current else p.start
        letter := some (continued letter) }

/-- Takes in a letter. -/
def addLetter (p : PathProgress α) (c : Char) : PathProgress α :=
  if c.toUpper = 'Z' then { p with done := .close :: p.done, current := p.start, letter := none }
  else { p with letter := some c, fresh := true }

/-- Takes in the next lexeme. -/
def step (p : PathProgress α) (lexeme : PathLexeme) : Except PathError (PathProgress α) :=
  let offset := lexeme.offset
  match lexeme.kind, p.letter with
  | .letter c, _ =>
      if p.owesNumber then .error (.expectedNumber offset)
      else if !letters.contains c then .error (.unknownCommand offset c)
      else if p.done.isEmpty && c.toUpper != 'M' then .error (.missingMoveTo (offset + 1))
      else .ok (p.addLetter c)
  | _, none => .error (.missingMoveTo offset)
  | .number n, some letter => .ok (p.addNumber letter n.value)
  | .junk, some _ => .error (.expectedNumber offset)

/-- The path read, once the text has ended at the byte `stop`. -/
def finish (p : PathProgress α) (stop : Nat) : Except PathError (Path α) :=
  if p.owesNumber then .error (.expectedNumber stop) else .ok ⟨p.done.reverse⟩

end PathProgress

/-- Reads a path. -/
def Path.read {α : Type} [Number α] (text : String) : Except PathError (Path α) := do
  let progress ← (PathLexeme.scan 0 text.toList).foldlM PathProgress.step PathProgress.initial
  progress.finish text.utf8ByteSize

end PatternMarkup
