import PatternMarkup.Formula.Operator
import PatternMarkup.Number.Numeral
import PatternMarkup.Text.Bytes
/-!
The tokens of a formula.
-/

namespace PatternMarkup

/-- A sign of a formula. -/
inductive Sign where
  | plus
  | minus
  | star
  | slash
  | percent
  | bang
  | equal
  | notEqual
  | less
  | lessEqual
  | greater
  | greaterEqual
  | and
  | or
  | question
  | colon
  | comma
  | dot
  | openParen
  | closeParen
  | openBracket
  | closeBracket
deriving Repr, DecidableEq, Inhabited

namespace Sign

/-- How a sign is written. -/
def text : Sign → String
  | plus => "+"
  | minus => "-"
  | star => "*"
  | slash => "/"
  | percent => "%"
  | bang => "!"
  | equal => "=="
  | notEqual => "!="
  | less => "<"
  | lessEqual => "<="
  | greater => ">"
  | greaterEqual => ">="
  | and => "&&"
  | or => "||"
  | question => "?"
  | colon => ":"
  | comma => ","
  | dot => "."
  | openParen => "("
  | closeParen => ")"
  | openBracket => "["
  | closeBracket => "]"

/-- The operator a sign stands for between two formulas. -/
def binaryOp? : Sign → Option BinaryOp
  | plus => some .add
  | minus => some .subtract
  | star => some .multiply
  | slash => some .divide
  | percent => some .modulo
  | equal => some .equals
  | notEqual => some .notEquals
  | less => some .lessThan
  | lessEqual => some .lessThanOrEqual
  | greater => some .greaterThan
  | greaterEqual => some .greaterThanOrEqual
  | and => some .and
  | or => some .or
  | _ => none

/-- The operator a sign stands for before a formula. -/
def unaryOp? : Sign → Option UnaryOp
  | minus => some .negate
  | bang => some .not
  | _ => none

end Sign

/-- A token of a formula. -/
inductive FormulaToken where
  | truth (b : Bool)
  | word (name : String)
  /-- A number as it is written. -/
  | number (written : List Char)
  /-- What stands between quotes, as it is written. -/
  | text (written : List Char)
  | sign (s : Sign)
deriving Repr, DecidableEq, Inhabited

/-- A token and the bytes it covers. -/
structure PlacedToken where
  token : FormulaToken
  range : ByteRange
deriving Repr, DecidableEq, Inhabited

/-- The number a numeral denotes. -/
def numeralValue {α : Type} [Number α] (written : List Char) : α :=
  match Numeral.read? written with
  | some n => n.value
  | none => Number.zero

/-- How reports show a token: numbers by their value, all else as written. -/
def FormulaToken.shown (α : Type) [Number α] : FormulaToken → String
  | truth b => if b then "'true'" else "'false'"
  | word name => "'" ++ name ++ "'"
  | number written => Number.text (numeralValue written : α)
  | text written => "\"" ++ String.ofList written ++ "\""
  | sign s => "'" ++ s.text ++ "'"

/-- Text between quotes with its escapes resolved: a line break, a tabulator, or the character
after the backslash. -/
def unescape : List Char → List Char
  | [] => []
  | ['\\'] => ['\\']
  | '\\' :: 'n' :: rest => '\n' :: unescape rest
  | '\\' :: 't' :: rest => '\t' :: unescape rest
  | '\\' :: c :: rest => c :: unescape rest
  | c :: rest => c :: unescape rest

end PatternMarkup
