import PatternMarkup.Formula.Operator
import PatternMarkup.Formula.Value
import PatternMarkup.Text.Quoted
/-!
Formulas as trees. Every node knows the bytes of the text it was read from.
-/

namespace PatternMarkup

/-- A formula. -/
inductive Ast (α : Type) where
  | literal (value : Value α) (range : ByteRange)
  | name (name : String) (range : ByteRange)
  | list (items : List (Ast α)) (range : ByteRange)
  | unary (op : UnaryOp) (operand : Ast α) (range : ByteRange)
  | binary (op : BinaryOp) (left right : Ast α) (range : ByteRange)
  | conditional (condition then_ else_ : Ast α) (range : ByteRange)
  | call (function : String) (arguments : List (Ast α)) (range : ByteRange)
  | member (object : Ast α) (member : String) (range : ByteRange)
  | index (object index : Ast α) (range : ByteRange)
  /-- Text with formulas in it: the texts of the parts one after another. -/
  | interpolation (parts : List (Ast α)) (range : ByteRange)
deriving Inhabited

namespace Ast

variable {α : Type}

/-- The bytes a formula was read from. -/
def range : Ast α → ByteRange
  | literal _ r => r
  | name _ r => r
  | list _ r => r
  | unary _ _ r => r
  | binary _ _ _ r => r
  | conditional _ _ _ r => r
  | call _ _ r => r
  | member _ _ r => r
  | index _ _ r => r
  | interpolation _ r => r

/-- The same formula, read from other bytes. -/
def withRange (r : ByteRange) : Ast α → Ast α
  | literal value _ => literal value r
  | name n _ => .name n r
  | list items _ => list items r
  | unary op operand _ => unary op operand r
  | binary op left right _ => binary op left right r
  | conditional condition then_ else_ _ => conditional condition then_ else_ r
  | call function arguments _ => call function arguments r
  | member object m _ => .member object m r
  | index object i _ => .index object i r
  | interpolation parts _ => interpolation parts r

@[simp] theorem range_withRange (r : ByteRange) (ast : Ast α) : (ast.withRange r).range = r := by
  cases ast <;> rfl

/-- An operator between two formulas, read from all bytes of both. -/
def ofBinary (op : BinaryOp) (left right : Ast α) : Ast α :=
  binary op left right (left.range.union right.range)

/-- The value a formula is, if it is a literal. -/
def literal? : Ast α → Option (Value α)
  | literal value _ => some value
  | _ => none

/-- Whether a formula is a literal. -/
def isLiteral (ast : Ast α) : Bool := ast.literal?.isSome

/-- The values of several formulas, if all are literals. -/
def literals? : List (Ast α) → Option (List (Value α))
  | [] => some []
  | ast :: rest => do
      let value ← ast.literal?
      return value :: (← literals? rest)

/-! ### Names -/

/-- Adds a name at the end unless it is there. -/
def addName (names : List String) (name : String) : List String :=
  if names.contains name then names else names ++ [name]

mutual

/-- Adds the names a formula reads to those given. -/
def addNames (names : List String) : Ast α → List String
  | literal _ _ => names
  | name n _ => addName names n
  | list items _ => addAllNames names items
  | unary _ operand _ => operand.addNames names
  | binary _ left right _ => right.addNames (left.addNames names)
  | conditional condition then_ else_ _ =>
      else_.addNames (then_.addNames (condition.addNames names))
  | call _ arguments _ => addAllNames names arguments
  | member object _ _ => object.addNames names
  | index object i _ => i.addNames (object.addNames names)
  | interpolation parts _ => addAllNames names parts

/-- Adds the names that several formulas read to those given. -/
def addAllNames (names : List String) : List (Ast α) → List String
  | [] => names
  | ast :: rest => addAllNames (ast.addNames names) rest

end

/-- The names a formula reads, in the order of their first use. -/
def freeNames (ast : Ast α) : List String := ast.addNames []

/-! ### Text -/

/-- Text as it stands between formulas: braces are doubled. -/
def doubleBraces (text : List Char) : List Char :=
  text.flatMap fun c => if c = '{' ∨ c = '}' then [c, c] else [c]

/-- A formula as it stands in text. -/
def bracedText (text : String) : String := "\x7b" ++ text ++ "\x7d"

variable [Number α]

mutual

/-- The formula as text, with parentheses around every operation. -/
def text : Ast α → String
  | literal value _ =>
      match value with
      | .string s => quoted s
      | v => v.text
  | name n _ => n
  | list items _ => "[" ++ ", ".intercalate (texts items) ++ "]"
  | unary op operand _ => op.symbol ++ operand.text
  | binary op left right _ => "(" ++ left.text ++ " " ++ op.symbol ++ " " ++ right.text ++ ")"
  | conditional condition then_ else_ _ =>
      "(" ++ condition.text ++ " ? " ++ then_.text ++ " : " ++ else_.text ++ ")"
  | call function arguments _ => function ++ "(" ++ ", ".intercalate (texts arguments) ++ ")"
  | member object m _ => object.text ++ "." ++ m
  | index object i _ => object.text ++ "[" ++ i.text ++ "]"
  | interpolation parts _ => partTexts parts

/-- The texts of several formulas. -/
def texts : List (Ast α) → List String
  | [] => []
  | ast :: rest => ast.text :: texts rest

/-- Text with formulas in it. -/
def partTexts : List (Ast α) → String
  | [] => ""
  | .literal (.string s) _ :: rest => String.ofList (doubleBraces s.toList) ++ partTexts rest
  | ast :: rest => bracedText ast.text ++ partTexts rest

end

end Ast

end PatternMarkup
