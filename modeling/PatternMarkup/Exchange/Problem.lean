import PatternMarkup.Exchange.Markup
import PatternMarkup.Files.Store
import PatternMarkup.Formula.Error
import PatternMarkup.Geometry.PathReader
import PatternMarkup.Geometry.Slicing
import PatternMarkup.Markup.Token
/-!
How errors are written as JSON: the name of their kind beside their text, and the bytes they
concern where those are known.
-/

namespace PatternMarkup

/-- Two ends of a range of bytes. -/
def ByteRange.json (r : ByteRange) : Json := .counts [r.start, r.stop]

/-- The members of an error: the name of its kind and its text. -/
def problemMembers (kind message : String) : List (String × Json) :=
  [("error", .string kind), ("message", .string message)]

/-- An error: the name of its kind and its text. -/
def problemJson (kind message : String) : Json := .object (problemMembers kind message)

/-- The members of an error that concerns some bytes. -/
def placedMembers (kind message : String) (range : ByteRange) : List (String × Json) :=
  problemMembers kind message ++ [("range", range.json)]

/-- An error and the bytes it concerns. -/
def placedProblem (kind message : String) (range : ByteRange) : Json :=
  .object (placedMembers kind message range)

/-- The name of a fault's kind. -/
def MarkupFault.kind : MarkupFault → String
  | strayLessThan => "StrayLessThan"
  | unexpectedCharacter _ _ => "UnexpectedCharacter"
  | unterminatedTag _ => "UnterminatedTag"
  | expectedTagEnd _ => "ExpectedTagEnd"
  | missingAttributeValue _ => "MissingAttributeValue"
  | unquotedAttributeValue _ => "UnquotedAttributeValue"
  | duplicateAttribute _ => "DuplicateAttribute"
  | unknownEntity _ => "UnknownEntity"
  | unterminatedEntity => "UnterminatedEntity"
  | emptyEndTag => "EmptyEndTag"
  | unmatchedEndTag _ => "UnmatchedEndTag"
  | unclosedElement _ => "UnclosedElement"
  | unexpectedEnd _ => "UnexpectedEof"
  | multipleRoots => "MultipleRoots"
  | textOutsideRoot => "TextOutsideRoot"

/-- A fault of markup, its place and its severity. -/
def PlacedFault.json (f : PlacedFault) : Json :=
  .object (problemMembers f.fault.kind f.fault.message ++
    [("span", f.span.json), ("severity", .string f.fault.severity.name)])

/-- An error of reading a file. -/
def FileError.json (e : FileError) : Json :=
  match e with
  | .notFound _ => problemJson "NotFound" e.message
  | .unreadable _ => problemJson "Io" e.message

/-- The name of an error's kind. -/
def SliceError.kind {α : Type} : SliceError α → String
  | invalidReference _ _ => "InvalidReference"
  | cutOutOfRange _ _ _ _ => "CutOutOfRange"
  | notIncreasing _ _ _ _ => "NotIncreasing"
  | degenerate _ _ => "Degenerate"

/-- An error of slicing. -/
def SliceError.json (e : SliceError Float) : Json := problemJson e.kind e.message

/-- The name of an error's kind. -/
def PathError.kind : PathError → String
  | missingMoveTo _ => "MissingMoveTo"
  | unknownCommand _ _ => "UnknownCommand"
  | expectedNumber _ => "ExpectedNumber"

/-- An error of reading a path. -/
def PathError.json (e : PathError) : Json := problemJson e.kind e.message

/-- The name of a fault's kind. -/
def FormatFault.kind : FormatFault → String
  | unexpectedCharacter => "UnexpectedCharacter"
  | unexpectedToken _ _ => "UnexpectedToken"
  | unexpectedEnd _ => "UnexpectedEnd"
  | unclosedBrace => "UnclosedBrace"
  | unmatchedBrace => "UnmatchedBrace"
  | invalidLiteral _ _ => "InvalidLiteral"
  | percentWithoutAxis _ => "PercentWithoutAxis"
  | unknownTransform _ => "UnknownTransform"
  | wrongCount _ _ _ => "WrongCount"
  | unknownEnumValue _ _ => "UnknownEnumValue"

/-- An error in the form of a formula or a literal. -/
def FormatError.json (e : FormatError) : Json := placedProblem e.fault.kind e.message e.range

/-- The name of an error's kind. -/
def EvalError.kind : EvalError → String
  | undefinedName _ => "UndefinedName"
  | unbound _ => "Unbound"
  | arity _ _ _ => "Arity"
  | invalidOperands _ _ _ => "InvalidOperands"
  | badCast _ _ => "BadCast"
  | divisionByZero => "DivisionByZero"
  | recursion _ => "Recursion"
  | indexOutOfRange _ _ => "IndexOutOfRange"
  | noSuchMember _ _ => "NoSuchMember"
  | invalidArgument _ _ => "InvalidArgument"

/-- An error of evaluation. -/
def EvalError.json (e : EvalError) : Json := problemJson e.kind e.message

/-- The name of a fault's kind. -/
def TypeFault.kind : TypeFault → String
  | undefinedName _ => "UndefinedName"
  | unknownFunction _ => "UnknownFunction"
  | arity _ _ _ => "Arity"
  | invalidOperands _ _ _ => "InvalidOperands"
  | mismatch _ _ => "Mismatch"
  | noSuchMember _ _ => "NoSuchMember"

/-- An error of types. -/
def TypeError.json (e : TypeError) : Json := placedProblem e.fault.kind e.fault.message e.range

/-- Several errors of types. -/
def typeErrorsJson (es : List TypeError) : Json := .list (es.map TypeError.json)

end PatternMarkup
