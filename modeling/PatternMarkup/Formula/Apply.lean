import PatternMarkup.Formula.Operator
import PatternMarkup.Formula.Value
/-!
What operators, members and indices do to values. Integers stay integers as long as the result
fits 64 bits; beyond that they become numbers.
-/

namespace PatternMarkup

variable {α : Type} [Number α]

/-! ### Operators -/

/-- The value of an operator before an operand. -/
def UnaryOp.apply (op : UnaryOp) (v : Value α) : Except EvalError (Value α) :=
  match op, v with
  | .negate, .scalar x => .ok (.scalar (-x))
  | .negate, .int n =>
      if Number.fitsInt (-n.toInt) then .ok (.int (Int64.ofInt (-n.toInt)))
      else .ok (.scalar (-(Number.ofInt64 n)))
  | .negate, .point p => .ok (.point (p.scale (-Number.one)))
  | .not, .bool b => .ok (.bool !b)
  | _, _ => .error (.invalidOperands op.symbol "nothing" v.type.text)

namespace BinaryOp

/-- The error of operands an operator cannot take. -/
def refuse (op : BinaryOp) (left right : Value α) : EvalError :=
  .invalidOperands op.symbol left.type.text right.type.text

/-- The operands as numbers. -/
def numbers (op : BinaryOp) (left right : Value α) : Except EvalError (α × α) :=
  match left.number?, right.number? with
  | some x, some y => .ok (x, y)
  | _, _ => .error (op.refuse left right)

/-- The result of an operation on integers, if it fits 64 bits. -/
def onInts? (op : Int → Int → Int) (left right : Value α) : Option (Value α) :=
  match left, right with
  | .int m, .int n =>
      let result := op m.toInt n.toInt
      if Number.fitsInt result then some (.int (Int64.ofInt result)) else none
  | _, _ => none

/-- An operation on integers if both operands are and the result fits, else on numbers. -/
def arithmetic (op : BinaryOp) (ints : Int → Int → Int) (reals : α → α → α)
    (left right : Value α) : Except EvalError (Value α) :=
  match onInts? ints left right with
  | some v => .ok v
  | none => (op.numbers left right).map fun (x, y) => .scalar (reals x y)

/-- The remainder of an integer division that is never negative. The least integer has none by
minus one, as their quotient does not fit 64 bits. -/
def remainder (left right : Value α) : Except EvalError (Value α) :=
  match left, right with
  | .int m, .int n =>
      if m.toInt = Number.leastInt ∧ n.toInt = -1 then
        .ok (.scalar (Number.remEuclid (Number.ofInt64 m) (Number.ofInt64 n)))
      else .ok (.int (Int64.ofInt (m.toInt % n.toInt)))
  | _, _ => arithmetic .modulo (· % ·) Number.remEuclid left right

/-- The sum of two values: text takes in everything, lists are joined. -/
def sum (left right : Value α) : Except EvalError (Value α) :=
  match left, right with
  | .string s, v => .ok (.string (s ++ v.text))
  | v, .string s => .ok (.string (v.text ++ s))
  | .list items, .list more => .ok (.list (items ++ more))
  | .point p, .point q => .ok (.point (p + q))
  | v, w => arithmetic .add (· + ·) (· + ·) v w

/-- The product of two values: maps are composed, points stretched. -/
def product (left right : Value α) : Except EvalError (Value α) :=
  let numbers := arithmetic .multiply (· * ·) (· * ·) left right
  match left, right with
  | .transform m, .transform n => .ok (.transform (m * n))
  | .point p, v =>
      match v.number? with
      | some k => .ok (.point (p.scale k))
      | none => numbers
  | v, .point p =>
      match v.number? with
      | some k => .ok (.point (p.scale k))
      | none => numbers
  | _, _ => numbers

/-- A comparison of two texts or two numbers. Nothing compares to what is not a number. -/
def compare (op : BinaryOp) (texts : String → String → Bool) (reals : α → α → Bool)
    (left right : Value α) : Except EvalError (Value α) :=
  match left, right with
  | .string s, .string t => .ok (.bool (texts s t))
  | v, w => (op.numbers v w).map fun (x, y) => .bool (reals x y)

/-- The value of an operator between operands. -/
def apply (op : BinaryOp) (left right : Value α) : Except EvalError (Value α) :=
  match op with
  | add => sum left right
  | subtract =>
      match left, right with
      | .point p, .point q => .ok (.point (p - q))
      | v, w => arithmetic op (· - ·) (· - ·) v w
  | multiply => product left right
  | divide => do
      let (x, y) ← op.numbers left right
      if y == Number.zero then throw .divisionByZero
      return .scalar (x / y)
  | modulo => do
      let (_, y) ← op.numbers left right
      if y == Number.zero then throw .divisionByZero
      remainder left right
  | equals => .ok (.bool (left.looselyEquals right))
  | notEquals => .ok (.bool !(left.looselyEquals right))
  | lessThan => op.compare (fun s t => decide (s < t)) (fun x y => decide (x < y)) left right
  | lessThanOrEqual =>
      op.compare (fun s t => decide (s ≤ t)) (fun x y => decide (x ≤ y)) left right
  | greaterThan => op.compare (fun s t => decide (t < s)) (fun x y => decide (y < x)) left right
  | greaterThanOrEqual =>
      op.compare (fun s t => decide (t ≤ s)) (fun x y => decide (y ≤ x)) left right
  | and =>
      match left, right with
      | .bool a, .bool b => .ok (.bool (a && b))
      | v, w => .error (op.refuse v w)
  | or =>
      match left, right with
      | .bool a, .bool b => .ok (.bool (a || b))
      | v, w => .error (op.refuse v w)

end BinaryOp

/-! ### Members and indices -/

namespace Value

/-- The number that a value of several numbers holds under a name. -/
def numberMember? (v : Value α) (member : String) : Option α :=
  match v, member with
  | .rect r, "x" => some r.x
  | .rect r, "y" => some r.y
  | .rect r, "width" => some r.width
  | .rect r, "height" => some r.height
  | .size s, "width" => some s.width
  | .size s, "height" => some s.height
  | .point p, "x" => some p.x
  | .point p, "y" => some p.y
  | .margins m, "top" => some m.top
  | .margins m, "right" => some m.right
  | .margins m, "bottom" => some m.bottom
  | .margins m, "left" => some m.left
  | .color c, "r" => some c.r
  | .color c, "g" => some c.g
  | .color c, "b" => some c.b
  | .color c, "a" => some c.a
  | _, _ => none

/-- The member of a value. -/
def member (v : Value α) (name : String) : Except EvalError (Value α) :=
  let found :=
    match v with
    | .record fields => Fields.get? name fields
    | _ => (v.numberMember? name).map .scalar
  match found with
  | some w => .ok w
  | none => .error (.noSuchMember name v.type.text)

/-- The integer that an index is. -/
def asIndex (v : Value α) : Except EvalError Int :=
  match v with
  | .int n => .ok n.toInt
  | .scalar x =>
      if Number.isWhole x then .ok (Number.toInt x)
      else .error (.badCast v.type.text ValueType.int.text)
  | _ => .error (.badCast v.type.text ValueType.int.text)

/-- The item of a list, counted from zero. -/
def item (v index : Value α) : Except EvalError (Value α) :=
  match v with
  | .list items => do
      let i ← index.asIndex
      match (if i < 0 then none else items[i.toNat]?) with
      | some w => return w
      | none => throw (.indexOutOfRange i items.length)
  | _ => .error (.invalidOperands "[]" v.type.text index.type.text)

end Value

end PatternMarkup
