import PatternMarkup.Formula.Error
import PatternMarkup.Formula.Token
/-!
Cutting a formula into tokens. Each token is the longest that starts at its place; the first
place where none starts is an error.
-/

namespace PatternMarkup

/-- What stands at the start of a text: a token, or none, and its number of characters. -/
structure TokenReading where
  token : Option FormulaToken
  count : Nat
deriving Repr, DecidableEq, Inhabited

namespace TokenReading

/-- Whether a character separates tokens. -/
def isSpace (c : Char) : Bool := c == ' ' || c == '\t' || c == '\r' || c == '\n'

/-- Whether a name may start with a character. -/
def isWordStart (c : Char) : Bool := c.isAlpha || c == '_'

/-- Whether a name may hold a character. -/
def isWordChar (c : Char) : Bool := c.isAlphanum || c == '_'

/-- The token of a name. -/
def ofWord (word : List Char) : FormulaToken :=
  if word = ['t', 'r', 'u', 'e'] then .truth true
  else if word = ['f', 'a', 'l', 's', 'e'] then .truth false
  else .word (String.ofList word)

/-- The digits of a number, with a point among or before them. -/
def mantissa (text : List Char) : List Char :=
  let whole := text.takeWhile Char.isDigit
  match text.dropWhile Char.isDigit with
  | '.' :: rest => whole ++ '.' :: rest.takeWhile Char.isDigit
  | _ => whole

/-- The number at the start of a text. -/
def ofNumber (text : List Char) : TokenReading :=
  let front := mantissa text
  let written := front ++ Numeral.exponentPart (text.drop front.length)
  ⟨some (.number written), written.length⟩

/-- Whether a text between quotes is closed, and its number of characters with the closing
quote. One that ends in a backslash, or has one before a line break, ends before it. -/
def quotedExtent (quote : Char) : List Char → Bool × Nat
  | [] => (false, 0)
  | ['\\'] => (false, 0)
  | '\\' :: c :: rest =>
      if c = '\n' then (false, 0)
      else
        let (closed, count) := quotedExtent quote rest
        (closed, count + 2)
  | c :: rest =>
      if c = quote then (true, 1)
      else
        let (closed, count) := quotedExtent quote rest
        (closed, count + 1)

/-- The text at the start, after its opening quote. -/
def ofQuoted (quote : Char) (rest : List Char) : TokenReading :=
  let (closed, count) := quotedExtent quote rest
  if closed then ⟨some (.text (rest.take (count - 1))), count + 1⟩ else ⟨none, count + 1⟩

/-- The sign of one character. -/
def sign? (c : Char) : Option Sign :=
  match c with
  | '+' => some .plus
  | '-' => some .minus
  | '*' => some .star
  | '/' => some .slash
  | '%' => some .percent
  | '!' => some .bang
  | '<' => some .less
  | '>' => some .greater
  | '?' => some .question
  | ':' => some .colon
  | ',' => some .comma
  | '.' => some .dot
  | '(' => some .openParen
  | ')' => some .closeParen
  | '[' => some .openBracket
  | ']' => some .closeBracket
  | _ => none

/-- The sign of two characters. -/
def doubleSign? (c d : Char) : Option Sign :=
  match c, d with
  | '=', '=' => some .equal
  | '!', '=' => some .notEqual
  | '<', '=' => some .lessEqual
  | '>', '=' => some .greaterEqual
  | '&', '&' => some .and
  | '|', '|' => some .or
  | _, _ => none

/-- The sign at the start of a text. -/
def ofSign (c : Char) (rest : List Char) : TokenReading :=
  match rest.head?.bind (doubleSign? c) with
  | some s => ⟨some (.sign s), 2⟩
  | none => ⟨(sign? c).map .sign, 1⟩

/-- Whether a number starts with a character, given what follows it. -/
def startsNumber (c : Char) (rest : List Char) : Bool :=
  c.isDigit || (c == '.' && rest.head?.any Char.isDigit)

/-- What stands at the start of a text. -/
def read (c : Char) (rest : List Char) : TokenReading :=
  if isWordStart c then
    let word := c :: rest.takeWhile isWordChar
    ⟨some (ofWord word), word.length⟩
  else if startsNumber c rest then ofNumber (c :: rest)
  else if c = '"' ∨ c = '\'' then ofQuoted c rest
  else ofSign c rest

end TokenReading

/-- The tokens of a text that starts at the byte `offset`. -/
def scanFormula (offset : Nat) (text : List Char) : Except FormatError (List PlacedToken) :=
  match text with
  | [] => .ok []
  | c :: rest =>
      if TokenReading.isSpace c then scanFormula (offset + c.utf8Size) rest
      else
        let reading := TokenReading.read c rest
        let stop := offset + byteLength ((c :: rest).take reading.count)
        match reading.token with
        | none => .error ⟨.unexpectedCharacter, ⟨offset, stop⟩⟩
        | some token =>
            match scanFormula stop (rest.drop (reading.count - 1)) with
            | .ok tokens => .ok (⟨token, ⟨offset, stop⟩⟩ :: tokens)
            | .error e => .error e
termination_by text.length
decreasing_by
  · simp
  · simp only [List.length_drop, List.length_cons]; omega

/-- The tokens of a piece of text. -/
def Fragment.tokens (text : Fragment) : Except FormatError (List PlacedToken) :=
  scanFormula text.offset text.chars

end PatternMarkup
