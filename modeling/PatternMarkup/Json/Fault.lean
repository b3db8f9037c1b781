/-!
What can be wrong with a JSON text, and how a report says so.
-/

namespace PatternMarkup

/-- What is wrong with a JSON text. -/
inductive JsonProblem where
  | listBreaksOff
  | objectBreaksOff
  | stringBreaksOff
  | valueBreaksOff
  | expectedColon
  | expectedListEnd
  | expectedObjectEnd
  | expectedWord
  | expectedValue
  | invalidEscape
  | invalidNumber
  | numberOutOfRange
  | controlCharacter
  | nameNotString
  | loneSurrogate
  | missingSurrogate
  | trailingComma
  | trailingText
  | wrongType (found expected : String)
  | duplicateMember (name : String)
deriving Repr, DecidableEq, Inhabited

/-- What a report says about the problem. -/
def JsonProblem.message : JsonProblem → String
  | listBreaksOff => "EOF while parsing a list"
  | objectBreaksOff => "EOF while parsing an object"
  | stringBreaksOff => "EOF while parsing a string"
  | valueBreaksOff => "EOF while parsing a value"
  | expectedColon => "expected `:`"
  | expectedListEnd => "expected `,` or `]`"
  | expectedObjectEnd => "expected `,` or `\x7d`"
  | expectedWord => "expected ident"
  | expectedValue => "expected value"
  | invalidEscape => "invalid escape"
  | invalidNumber => "invalid number"
  | numberOutOfRange => "number out of range"
  | controlCharacter =>
      "control character (\\u0000-\\u001F) found while parsing a string"
  | nameNotString => "key must be a string"
  | loneSurrogate => "lone leading surrogate in hex escape"
  | missingSurrogate => "unexpected end of hex escape"
  | trailingComma => "trailing comma"
  | trailingText => "trailing characters"
  | wrongType found expected => "invalid type: " ++ found ++ ", expected " ++ expected
  | duplicateMember name => "duplicate field `" ++ name ++ "`"

/-- A problem of a JSON text and the byte up to which the text was read. -/
structure JsonFault where
  problem : JsonProblem
  offset : Nat
deriving Repr, DecidableEq, Inhabited

/-- What a report says about a fault of `source`. Columns are counted in bytes. -/
def JsonFault.message (source : String) (fault : JsonFault) : String :=
  let bytes := source.toUTF8.toList.take fault.offset
  let line := 1 + bytes.count 10
  let column := (bytes.reverse.takeWhile (· != 10)).length
  fault.problem.message ++ " at line " ++ toString line ++ " column " ++ toString column

end PatternMarkup
