/-!
The operators of formulas, their symbols, and how tightly they bind.
-/

namespace PatternMarkup

/-- An operator before its operand. -/
inductive UnaryOp where
  | negate
  | not
deriving Repr, DecidableEq, Inhabited

/-- An operator between its operands. -/
inductive BinaryOp where
  | add
  | subtract
  | multiply
  | divide
  | modulo
  | equals
  | notEquals
  | lessThan
  | lessThanOrEqual
  | greaterThan
  | greaterThanOrEqual
  | and
  | or
deriving Repr, DecidableEq, Inhabited

/-- The symbol of an operator. -/
def UnaryOp.symbol : UnaryOp → String
  | negate => "-"
  | not => "!"

namespace BinaryOp

/-- The symbol of an operator. -/
def symbol : BinaryOp → String
  | add => "+"
  | subtract => "-"
  | multiply => "*"
  | divide => "/"
  | modulo => "%"
  | equals => "=="
  | notEquals => "!="
  | lessThan => "<"
  | lessThanOrEqual => "<="
  | greaterThan => ">"
  | greaterThanOrEqual => ">="
  | and => "&&"
  | or => "||"

/-- How loosely an operator binds: products bind tightest, alternatives loosest. -/
def looseness : BinaryOp → Nat
  | multiply => 1
  | divide => 1
  | modulo => 1
  | add => 2
  | subtract => 2
  | lessThan => 3
  | lessThanOrEqual => 3
  | greaterThan => 3
  | greaterThanOrEqual => 3
  | equals => 4
  | notEquals => 4
  | and => 5
  | or => 6

/-- The looseness of the operators that bind loosest. -/
def loosest : Nat := 6

theorem looseness_pos (op : BinaryOp) : 0 < op.looseness := by cases op <;> decide

theorem looseness_le_loosest (op : BinaryOp) : op.looseness ≤ loosest := by cases op <;> decide

end BinaryOp

end PatternMarkup
