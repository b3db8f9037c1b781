import PatternMarkup.Formula.Builtin
import PatternMarkup.Formula.Scope
/-!
The check of a formula against the types of the names in a scope. It finds the type of the
formula and every fault; after a fault the type is `any`, which hides what follows from it.
-/

namespace PatternMarkup

/-- A type and the faults found on the way to it. -/
structure Checked where
  type : ValueType
  errors : List TypeError
deriving Inhabited

namespace Checked

/-- A type without faults. -/
def pure (type : ValueType) : Checked := ⟨type, []⟩

/-- A fault that leaves no type. -/
def fail (fault : TypeFault) (range : ByteRange) : Checked := ⟨.any, [⟨fault, range⟩]⟩

/-- The same after faults found before. -/
def after (errors : List TypeError) (c : Checked) : Checked := ⟨c.type, errors ++ c.errors⟩

end Checked

/-- The fault of a type that is not the one expected, if it is not. -/
def expectType (expected found : ValueType) (range : ByteRange) : List TypeError :=
  if expected.accepts found then [] else [⟨.mismatch expected found, range⟩]

/-- The type of an operator before an operand of the given type. -/
def UnaryOp.resultType? (op : UnaryOp) (type : ValueType) : Option ValueType :=
  match op, type with
  | _, .any => some .any
  | .negate, .scalar => some .scalar
  | .negate, .int => some .int
  | .negate, .point => some .point
  | .not, .bool => some .bool
  | _, _ => none

namespace BinaryOp

/-- The type of arithmetic on two numeric types. -/
def numericType (left right : ValueType) : ValueType :=
  if left == .int && right == .int then .int
  else if left == .any || right == .any then .any
  else .scalar

/-- The type of arithmetic, if both types are numeric or one is not known. -/
def arithmeticType? (left right : ValueType) : Option ValueType :=
  if left.isNumeric && right.isNumeric then some (numericType left right)
  else if left == .any || right == .any then some .any
  else none

/-- Whether a type holds truth values, or may. -/
def mayBeBool (type : ValueType) : Bool := type == .bool || type == .any

/-- The type of an operator between operands of the given types. -/
def resultType? (op : BinaryOp) (left right : ValueType) : Option ValueType :=
  let comparison : Option ValueType :=
    if (left.isNumeric && right.isNumeric) || (left == .string && right == .string) ||
        left == .any || right == .any then some .bool
    else none
  let logic : Option ValueType := if mayBeBool left && mayBeBool right then some .bool else none
  match op with
  | add =>
      match left, right with
      | .string, _ => some .string
      | _, .string => some .string
      | .list item, .list _ => some (.list item)
      | .point, .point => some .point
      | l, r => arithmeticType? l r
  | subtract =>
      match left, right with
      | .point, .point => some .point
      | l, r => arithmeticType? l r
  | multiply =>
      match left, right with
      | .transform, .transform => some .transform
      | .point, r => if r.isNumeric then some .point else arithmeticType? .point r
      | l, .point => if l.isNumeric then some .point else arithmeticType? l .point
      | l, r => arithmeticType? l r
  | divide => if left.isNumeric && right.isNumeric then some .scalar else none
  | modulo => if left.isNumeric && right.isNumeric then some (numericType left right) else none
  | equals => some .bool
  | notEquals => some .bool
  | lessThan => comparison
  | lessThanOrEqual => comparison
  | greaterThan => comparison
  | greaterThanOrEqual => comparison
  | and => logic
  | or => logic

end BinaryOp

/-- The type of a member of a type. -/
def ValueType.member? (type : ValueType) (member : String) : Option ValueType :=
  let number (names : List String) : Option ValueType :=
    if names.contains member then some .scalar else none
  match type with
  | any => some .any
  | record fields => Fields.get? member fields
  | rect => number ["x", "y", "width", "height"]
  | size => number ["width", "height"]
  | point => number ["x", "y"]
  | margins => number ["top", "right", "bottom", "left"]
  | color => number ["r", "g", "b", "a"]
  | _ => none

/-- The types of arguments, each with its bytes. -/
abbrev ArgumentTypes := List (ValueType × ByteRange)

/-- The faults of arguments against the types expected of them, as far as both go. -/
def expectTypes : List ValueType → ArgumentTypes → List TypeError
  | expected :: rest, (found, range) :: more =>
      expectType expected found range ++ expectTypes rest more
  | _, _ => []

variable {α : Type} [Number α]

namespace HostFunction

/-- The check of a call. -/
def check (host : HostFunction α) (arguments : ArgumentTypes) (range : ByteRange) : Checked :=
  if host.parameters.length = arguments.length then
    ⟨host.returns, expectTypes host.parameters arguments⟩
  else
    ⟨host.returns, [⟨.arity host.name (.exactly host.parameters.length) arguments.length, range⟩]⟩

end HostFunction

/-- The check of a call. -/
def Builtin.check (b : Builtin) (arguments : ArgumentTypes) (range : ByteRange) : Checked :=
  let count :=
    if b.arity.accepts arguments.length then []
    else [⟨.arity b.name b.arity arguments.length, range⟩]
  let parameters := (List.range arguments.length).map b.parameterType
  ⟨b.returnType (arguments.map (·.1)), count ++ expectTypes parameters arguments⟩

namespace Ast

/-- The check of a name. -/
def checkName (s : Scope α) (n : String) (range : ByteRange) : Checked :=
  match s.typeOf? n with
  | some type => .pure type
  | none =>
      match (Builtin.constant? n : Option (Value α)) with
      | some value => .pure value.type
      | none => .fail (.undefinedName n) range

/-- The check of a call whose arguments have the given types. -/
def checkCall (s : Scope α) (function : String) (arguments : ArgumentTypes) (range : ByteRange) :
    Checked :=
  match s.function? function with
  | some host => host.check arguments range
  | none =>
      match Builtin.ofName? function with
      | some b => b.check arguments range
      | none => .fail (.unknownFunction function) range

/-- The check of an index of the second type into a value of the first. -/
def checkIndex (object i : ValueType) (range : ByteRange) : Checked :=
  match object with
  | .list item => .pure item
  | .any => .pure .any
  | other => .fail (.invalidOperands "[]" other.text i.text) range

mutual

/-- The type of a formula, and its faults from left to right. -/
def check (s : Scope α) : Ast α → Checked
  | literal value _ => .pure value.type
  | name n range => checkName s n range
  | list items _ =>
      let (types, errors) := checkAll s items
      ⟨.list ((types.head?.map (·.1)).getD .any), errors⟩
  | unary op operand range =>
      let c := operand.check s
      match op.resultType? c.type with
      | some type => ⟨type, c.errors⟩
      | none =>
          (Checked.fail (.invalidOperands op.symbol "nothing" c.type.text) range).after c.errors
  | binary op left right range =>
      let l := left.check s
      let r := right.check s
      let errors := l.errors ++ r.errors
      match op.resultType? l.type r.type with
      | some type => ⟨type, errors⟩
      | none =>
          (Checked.fail (.invalidOperands op.symbol l.type.text r.type.text) range).after errors
  | conditional condition then_ else_ _ =>
      let c := condition.check s
      let a := then_.check s
      let b := else_.check s
      ⟨a.type.unify b.type,
        c.errors ++ expectType .bool c.type condition.range ++ a.errors ++ b.errors⟩
  | call function arguments range =>
      let (types, errors) := checkAll s arguments
      (checkCall s function types range).after errors
  | member object m range =>
      let c := object.check s
      match c.type.member? m with
      | some type => ⟨type, c.errors⟩
      | none => (Checked.fail (.noSuchMember m c.type) range).after c.errors
  | index object i range =>
      let o := object.check s
      let c := i.check s
      (checkIndex o.type c.type range).after
        (o.errors ++ c.errors ++ expectType .int c.type i.range)
  | interpolation parts _ => ⟨.string, (checkAll s parts).2⟩

/-- The types of several formulas, and their faults from left to right. -/
def checkAll (s : Scope α) : List (Ast α) → ArgumentTypes × List TypeError
  | [] => ([], [])
  | ast :: rest =>
      let c := ast.check s
      let (types, errors) := checkAll s rest
      ((c.type, ast.range) :: types, c.errors ++ errors)

end

/-- Whether evaluation converts a value of the second type to the first. -/
def converts (expected found : ValueType) : Bool :=
  match expected with
  | .string => found == .scalar || found == .int || found == .bool
  | .path => found == .scalar || found == .int || found == .bool
  | .margins => found.isNumeric
  | .int => found == .scalar
  | _ => false

/-- The faults of a formula whose value should have the given type. -/
def checkAs (s : Scope α) (expected : ValueType) (ast : Ast α) : List TypeError :=
  let c := ast.check s
  if expected.accepts c.type || converts expected c.type then c.errors
  else c.errors ++ [⟨.mismatch expected c.type, ast.range⟩]

end Ast

end PatternMarkup
