import PatternMarkup.Formula.Literal
import PatternMarkup.Pattern.ArgumentValues
import PatternMarkup.Pattern.Canvas
import PatternMarkup.Pattern.Instance
/-!
Giving the arguments of a pattern the values of an instance. It never fails: whatever is wrong
becomes a report, and the argument falls back to its default or stays without a value.
-/

namespace PatternMarkup

/-- What has been found while an instance is bound: the reports, and which attributes, by their
positions, belong to an argument. -/
structure InstanceReading where
  diagnostics : Diagnostics := .empty
  taken : List Nat := []
deriving Inhabited

/-- A step of binding an instance. -/
abbrev InstanceBinder (β : Type) := StateM InstanceReading β

namespace InstanceBinder

/-- Makes a report. -/
def report (d : Diagnostic) : InstanceBinder Unit :=
  modify fun r => { r with diagnostics := r.diagnostics.push d }

/-- Reports an error of meaning. -/
def error (span : Span) (message : String) : InstanceBinder Unit :=
  report (.error .meaning span message)

/-- Records that the attribute at a position belongs to an argument. -/
def take (index : Nat) : InstanceBinder Unit :=
  modify fun r => { r with taken := index :: r.taken }

end InstanceBinder

open InstanceBinder

/-- The place of some bytes of an attribute's value. A value that does not stand in the source
as it is has no finer place than its whole span. -/
def InstanceAttribute.subSpan (a : InstanceAttribute) (range : ByteRange) : Span :=
  if a.valueSpan.length = byteLength a.value.toList then a.valueSpan.narrow a.value range
  else a.valueSpan

/-- The number at the end of a name that starts with another one; it is at least one and has no
sign. -/
def numberAfter? (name : String) (attribute_ : String) : Option Nat :=
  if name.toList.isPrefixOf attribute_.toList then
    (readCount? (attribute_.toList.drop name.toList.length)).filter (0 < ·)
  else none

/-- The numbered attributes of a name: number, position and attribute, in the order of numbers
and then of positions. -/
def numberedAttributes (name : String) (attributes : List InstanceAttribute) :
    List (Nat × Nat × InstanceAttribute) :=
  let found := (attributes.mapIdx fun index a => (index, a)).filterMap fun (index, a) =>
    (numberAfter? name a.name).map fun n => (n, index, a)
  found.mergeSort fun a b => decide (a.1 < b.1) || (a.1 == b.1 && decide (a.2.1 ≤ b.2.1))

variable {α : Type} [Number α]

/-- The list of expressions as one expression. -/
def Expression.ofItems (type : ValueType) (items : List (Expression α (Value α))) :
    Expression α (Value α) :=
  match items.mapM Expression.constant? with
  | some values => .constant (.list values)
  | none => .formula ⟨.list (items.map (·.toAst)) ⟨0, 0⟩, .list type⟩

/-- Reads the value of an attribute as one of a type; the report of the first fault is made. -/
def InstanceAttribute.read (a : InstanceAttribute) (type : ValueType) :
    InstanceBinder (Option (Expression α (Value α))) := do
  let s : Scope α := Canvas.declarations
  match readTyped { scope := s } type (.ofString a.value 0) with
  | .error e =>
      report ((Diagnostic.error .meaning (a.subSpan e.range)
        ("invalid value for '" ++ a.name ++ "'")).because e.message)
      return none
  | .ok e =>
      match (e.formula?.map fun f => f.ast.checkAs s type).getD [] with
      | [] => return some e
      | first :: _ =>
          error (a.subSpan first.range) first.fault.message
          return none

namespace PlainArgument

/-- Reports that an argument is left without a value. -/
def reportUnbound (arg : PlainArgument α) : InstanceBinder Unit :=
  error arg.span ("argument '" ++ arg.name ++ "' has no usable value and no default")

/-- The value after a wrong one: the default, or none. -/
def fallBack (arg : PlainArgument α) : InstanceBinder (Option (ArgumentValue α)) := do
  match arg.fallback with
  | some w => return some (.single w.value)
  | none => arg.reportUnbound; return none

/-- The value if the instance gives none under the given name: the default, or none. -/
def missing (arg : PlainArgument α) (name : String) :
    InstanceBinder (Option (ArgumentValue α)) := do
  match arg.fallback with
  | some w => return some (.single w.value)
  | none =>
      unless arg.optional do error arg.span ("missing required argument '" ++ name ++ "'")
      return none

/-- The value of the attribute of a name. -/
def bindSingular (arg : PlainArgument α) (i : Instance α) (name : String) :
    InstanceBinder (Option (ArgumentValue α)) := do
  match i.attributes.findIdx? (·.name == name), i.attribute? name with
  | some index, some a =>
      take index
      match ← a.read arg.type with
      | some e => return some (.single e)
      | none => arg.fallBack
  | _, _ => arg.missing name

/-- The number after `n`; zero follows the greatest of 32 bits. -/
def nextNumber (n : Nat) : Nat := if n < 4294967295 then n + 1 else 0

/-- The items of numbered attributes. `expected` is the number that should come next; nothing
stands for an item that is wrong and has no default. -/
def bindItems (arg : PlainArgument α) (name : String) (expected : Nat) :
    List (Nat × Nat × InstanceAttribute) → InstanceBinder (List (Option (Expression α (Value α))))
  | [] => return []
  | (n, index, a) :: rest => do
      take index
      if n ≠ expected then
        report (.warning .meaning a.nameSpan ("'" ++ a.name ++ "' skips '" ++ name ++
          toString expected ++ "'; the gap is ignored"))
      let item ← a.read arg.type
      return item.or (arg.fallback.map (·.value)) :: (← arg.bindItems name (nextNumber n) rest)

/-- The list of the values of numbered attributes. -/
def bindNumbered (arg : PlainArgument α) (i : Instance α) (name : String) :
    InstanceBinder (Option (ArgumentValue α)) := do
  match numberedAttributes name i.attributes with
  | [] =>
      if arg.isRequired then arg.missing (name ++ "1")
      else return some (.single (.constant (.list [])))
  | numbered =>
      match (← arg.bindItems name 1 numbered).mapM id with
      | some items => return some (.single (.ofItems arg.type items))
      | none => arg.reportUnbound; return none

/-- The value of an entry. -/
def bindEntry (arg : PlainArgument α) (i : Instance α) :
    InstanceBinder (Option (ArgumentValue α)) := do
  match Fields.get? arg.name i.entries with
  | none => arg.missing arg.name
  | some v =>
      match v.coerce arg.type with
      | .ok w => return some (.single (.constant w))
      | .error e =>
          report ((Diagnostic.error .meaning i.span
            ("entry '" ++ arg.name ++ "' does not fit its argument")).because e.message)
          arg.fallBack

/-- The value of an argument that is given under a name. -/
def bind (arg : PlainArgument α) (i : Instance α) (name : String) :
    InstanceBinder (Option (ArgumentValue α)) :=
  match arg.source with
  | .singular => arg.bindSingular i name
  | .numbered => arg.bindNumbered i name
  | .entry => arg.bindEntry i

end PlainArgument

/-- The values of the members of a group; nothing stands for a member without one. -/
def bindMembers (i : Instance α) (name : String) :
    List (PlainArgument α) → InstanceBinder (List (Option (String × Expression α (Value α))))
  | [] => return []
  | m :: rest => do
      let value ← m.bind i (memberAttribute name m.name)
      let field :=
        match value with
        | some (.single e) => some (m.var, e)
        | _ => none
      return field :: (← bindMembers i name rest)

/-- The value of an argument. A group without one of its members has no value. -/
def Argument.bind (i : Instance α) : Argument α → InstanceBinder (Option (ArgumentValue α))
  | .plain arg => arg.bind i arg.name
  | .group g => do
      let fields ← bindMembers i g.name g.members
      return (fields.mapM id).map fun fields => .group (Fields.ofList fields)

/-- The values of arguments one after another. -/
def bindAll (i : Instance α) (vs : ArgumentValues α) :
    List (Argument α) → InstanceBinder (ArgumentValues α)
  | [] => return vs
  | arg :: rest => do bindAll i (vs.insert arg (← arg.bind i)) rest

/-- Reports the attributes that belong to no argument. -/
def reportStrangers (pattern : String) (i : Instance α) : InstanceBinder Unit := do
  let taken := (← get).taken
  (i.attributes.mapIdx fun index a => (index, a)).forM fun (index, a) => do
    unless taken.contains index do
      report (.warning .meaning a.nameSpan
        ("'" ++ a.name ++ "' is not an argument of pattern '" ++ pattern ++ "'"))

/-- Reports a test that fails, or that cannot be evaluated. One that needs a missing value is
passed over. -/
def runTest (s : Scope α) (test : Expression α Bool) (declared failed : Span) (message : String) :
    InstanceBinder Unit := do
  match test.evaluate s with
  | .ok true => return
  | .ok false => error failed message
  | .error (.unbound _) => return
  | .error e => report (.error .evaluation declared e.message)

/-- Runs the tests of the arguments, then the validations. -/
def runTests (p : Pattern α) (i : Instance α) (s : Scope α) : InstanceBinder Unit := do
  p.arguments.forM fun arg =>
    match arg.test with
    | some test =>
        let failed := ((i.attribute? arg.name).map (·.valueSpan)).getD arg.span
        runTest s test arg.span failed arg.failureMessage
    | none => return
  p.validations.forM fun v => runTest s v.test v.span v.span v.message

/-- Gives the arguments of a pattern the values of an instance. -/
def Pattern.bindArguments (p : Pattern α) (i : Instance α) : ArgumentValues α × Diagnostics :=
  let binder : InstanceBinder (ArgumentValues α) := do
    let vs ← bindAll i {} p.arguments
    reportStrangers p.qualifiedName i
    runTests p i (vs.scope Canvas.declarations)
    return vs
  let (vs, reading) := binder.run {}
  (vs, reading.diagnostics)

end PatternMarkup
