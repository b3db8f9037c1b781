import PatternMarkup.Files.Path
import PatternMarkup.Formula.Evaluate
/-!
Types of this library that values of formulas stand for, and expressions of such a type. Two
constants combine at once; with a formula on either side the result is a formula.
-/

namespace PatternMarkup

/-- A type whose elements are written as values of formulas. -/
class Typed (α τ : Type) where
  valueType : ValueType
  ofValue : Value α → Except EvalError τ
  toValue : τ → Value α

variable {α : Type} [Number α]

/-- The error of a value that is not of the type asked for. -/
def Value.refuse (v : Value α) (type : ValueType) : EvalError := .badCast v.type.text type.text

/-- The text of a value that is written without structure: text, numbers and truth values. -/
def Value.plainText (v : Value α) : Except EvalError String :=
  match v with
  | .string s => .ok s
  | .scalar _ => .ok v.text
  | .int _ => .ok v.text
  | .bool _ => .ok v.text
  | _ => .error (v.refuse .string)

instance : Typed α α where
  valueType := .scalar
  ofValue v :=
    match v.number? with
    | some x => .ok x
    | none => .error (v.refuse .scalar)
  toValue := .scalar

instance : Typed α Int64 where
  valueType := .int
  ofValue v :=
    match v with
    | .int n => .ok n
    | .scalar x =>
        if Value.isInteger x then .ok (Number.toInt64 x) else .error (v.refuse .int)
    | _ => .error (v.refuse .int)
  toValue := .int

instance : Typed α Bool where
  valueType := .bool
  ofValue v :=
    match v with
    | .bool b => .ok b
    | _ => .error (v.refuse .bool)
  toValue := .bool

instance : Typed α String where
  valueType := .string
  ofValue := Value.plainText
  toValue := .string

instance : Typed α FilePath where
  valueType := .path
  ofValue v := v.plainText.map FilePath.mk
  toValue p := .string p.text

instance : Typed α (Color α) where
  valueType := .color
  ofValue v :=
    match v with
    | .color c => .ok c
    | _ => .error (v.refuse .color)
  toValue := .color

instance : Typed α (Transform α) where
  valueType := .transform
  ofValue v :=
    match v with
    | .transform m => .ok m
    | _ => .error (v.refuse .transform)
  toValue := .transform

instance : Typed α (Rect α) where
  valueType := .rect
  ofValue v :=
    match v with
    | .rect r => .ok r
    | _ => .error (v.refuse .rect)
  toValue := .rect

instance : Typed α (Size α) where
  valueType := .size
  ofValue v :=
    match v with
    | .size s => .ok s
    | _ => .error (v.refuse .size)
  toValue := .size

instance : Typed α (Point α) where
  valueType := .point
  ofValue v :=
    match v with
    | .point p => .ok p
    | _ => .error (v.refuse .point)
  toValue := .point

instance : Typed α (Margins α) where
  valueType := .margins
  ofValue v :=
    match v with
    | .margins m => .ok m
    | _ =>
        match v.number? with
        | some x => .ok (.uniform x)
        | none => .error (v.refuse .margins)
  toValue := .margins

instance : Typed α (Value α) where
  valueType := .any
  ofValue := .ok
  toValue v := v

instance {τ : Type} [Typed α τ] : Typed α (List τ) where
  valueType := .list (Typed.valueType α τ)
  ofValue v :=
    match v with
    | .list items => items.mapM Typed.ofValue
    | _ => .error (v.refuse (.list (Typed.valueType α τ)))
  toValue items := .list (items.map Typed.toValue)

namespace Expression

variable {τ : Type}

/-- The constant, if the expression is one. -/
def constant? : Expression α τ → Option τ
  | constant v => some v
  | formula _ => none

/-- The formula, if the expression is one. -/
def formula? : Expression α τ → Option (Formula α)
  | constant _ => none
  | formula f => some f

/-- Whether the expression is a constant. -/
def isConstant (e : Expression α τ) : Bool := e.constant?.isSome

/-- The names the expression reads. -/
def freeNames : Expression α τ → List String
  | constant _ => []
  | formula f => f.ast.freeNames

variable [Typed α τ]

/-- The expression of a tree: a literal is a constant, anything else a formula of the type. -/
def ofAst (type : ValueType) (ast : Ast α) : Except EvalError (Expression α τ) :=
  match ast.literal? with
  | some v => (Typed.ofValue v).map constant
  | none => .ok (formula ⟨ast, type⟩)

/-- The type of the expression's value. -/
def valueType : Expression α τ → ValueType
  | constant _ => Typed.valueType α τ
  | formula f => f.type

/-- The value of the expression in a scope. -/
def evaluate (s : Scope α) : Expression α τ → Except EvalError τ
  | constant v => .ok v
  | formula f => do Typed.ofValue (← f.ast.evaluate s)

/-- The expression as a tree. -/
def toAst : Expression α τ → Ast α
  | constant v => .literal (Typed.toValue v) ⟨0, 0⟩
  | formula f => f.ast

/-- An operator between two expressions. -/
def combine (op : BinaryOp) (left right : Expression α τ) :
    Except EvalError (Expression α τ) :=
  match left, right with
  | constant v, constant w => do
      let result ← op.apply (Typed.toValue v : Value α) (Typed.toValue w)
      return constant (← Typed.ofValue result)
  | l, r => .ok (formula ⟨.ofBinary op l.toAst r.toAst, l.valueType⟩)

/-- The expression with its value in the form of a value of formulas. -/
def widen : Expression α τ → Expression α (Value α)
  | constant v => constant (Typed.toValue v)
  | formula f => formula f

/-- The expression as one of another type. A constant is converted at once, a formula when it is
evaluated. -/
def cast : Expression α (Value α) → Except EvalError (Expression α τ)
  | constant v => (Typed.ofValue v).map constant
  | formula f => .ok (formula f)

/-- A map applied inside another one. -/
def compose (outer own : Expression α (Transform α)) :
    Except EvalError (Expression α (Transform α)) :=
  if outer.constant?.any Transform.isIdentity then .ok own else combine .multiply outer own

end Expression

end PatternMarkup
