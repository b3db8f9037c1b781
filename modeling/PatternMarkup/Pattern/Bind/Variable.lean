import PatternMarkup.Pattern.Bind.Value
import PatternMarkup.Pattern.Cycle
/-!
Reading what comes into scope with a figure: the item of its loop, and its variables. Variables
see each other whatever their order, so cycles among them are reported and cut.
-/

namespace PatternMarkup

open Binder

variable {α : Type} [Number α]

/-! ### Loops -/

/-- The text before and after the first place where another text stands. -/
def splitAtText? (middle : List Char) : List Char → Option (List Char × List Char)
  | [] => (afterStart? middle []).map fun after => ([], after)
  | c :: rest =>
      match afterStart? middle (c :: rest) with
      | some after => some ([], after)
      | none => (splitAtText? middle rest).map fun (before, after) => (c :: before, after)

/-- Reads the names of a loop: one for the items, and one for their positions if there is a
second. -/
def loopNames? (a : Attribute) (text : List Char) : Binder (Option (String × Option String)) := do
  let refuse (message : String) : Binder (Option (String × Option String)) := do
    error a.valueSpan message
    return none
  let accept (names : String × Option String) : Binder (Option (String × Option String)) := do
    for name in names.1 :: names.2.toList do
      unless ← acceptsVariable name a.valueSpan do return none
    return some names
  match ValueType.commaPieces (String.ofList text) with
  | [item] => accept (item, none)
  | [item, index] => accept (item, some index)
  | _ => refuse "for-each takes one or two loop variables"

/-- The error with which a list that needs no names fails for every instance. An undefined name
is left to the check of types. -/
def hopeless? (items : Expression α (Value α)) : Option EvalError :=
  if items.isConstant || !items.freeNames.isEmpty then none
  else
    match items.evaluate .empty with
    | .ok _ => none
    | .error (.undefinedName _) => none
    | .error e => some e

/-- Reads the list of a loop and the type of its items. -/
def loopItems? (a : Attribute) (s : Scope α) (text : Fragment) :
    Binder (Option (Expression α (Value α) × ValueType)) := do
  match readTyped { scope := s } .any text with
  | .error e =>
      error (a.subSpan e.range) e.message
      return none
  | .ok items =>
      match hopeless? items with
      | some e =>
          error (a.subSpan text.range) e.message
          return none
      | none =>
          let found := items.toAst.check s
          found.errors.forM fun f => error (a.subSpan f.range) f.fault.message
          match found.type with
          | .list item => return some (items, item)
          | .any => return some (items, .any)
          | other =>
              error a.valueSpan ("for-each needs a list, found " ++ other.text)
              return none

/-- Reads a loop. -/
def loop? (a : Attribute) (s : Scope α) : Binder (Option (Loop α)) := do
  match splitAtText? " in ".toList a.value.toList with
  | none =>
      error a.valueSpan "expected 'name in \x7blist\x7d' or 'name, index in \x7blist\x7d'"
      return none
  | some (names, list) =>
      match ← loopNames? a names with
      | none => return none
      | some (item, index) =>
          match ← loopItems? a s ⟨byteLength names + 4, list⟩ with
          | none => return none
          | some (items, itemType) => return some ⟨item, index, items, itemType⟩

/-- The level with the names of a loop. -/
def Loop.scope (loop : Loop α) (outer : Scope α) : Scope α :=
  let s := outer.child.declare loop.item loop.itemType
  match loop.index with
  | some index => s.declare index .int
  | none => s

/-- Reads the loop of a figure, if it has one, and the scope inside it. -/
def figureLoop (e : Element) (s : Scope α) : Binder (Option (Loop α) × Scope α) := do
  match ← attribute? e "for-each" with
  | none => return (none, s)
  | some a =>
      match ← loop? a s with
      | some loop => return (some loop, loop.scope s)
      | none => return (none, s)

/-! ### Variables -/

/-- A variable as it is declared. -/
structure DeclaredVariable where
  name : String
  type : Option ValueType
  value : Attribute
  span : Span
deriving Inhabited

/-- The type a variable has before its value is read. -/
def DeclaredVariable.knownType (d : DeclaredVariable) : ValueType := d.type.getD .any

/-- Reads a variable besides those declared before it. -/
def declaredVariable? (before : List DeclaredVariable) (tree : Tree) (e : Element) :
    Binder (Option DeclaredVariable) := do
  markNode tree
  match ← requiredAttribute? e "name" with
  | none => return none
  | some a =>
      let name := trimText a.value
      if !(← acceptsVariable name a.valueSpan) then return none
      else if before.any (·.name == name) then
        error a.valueSpan ("variable '" ++ name ++ "' is declared twice")
        return none
      else
        let type ← type? e "variable"
        return (← requiredAttribute? e "value").map fun value =>
          ⟨name, type.getD none, value, a.valueSpan⟩

/-- Reads the variables among elements, besides those declared before. -/
def declaredVariables (before : List DeclaredVariable) :
    List (Tree × Element × Tag) → Binder (List DeclaredVariable)
  | [] => return before
  | (tree, e, tag) :: rest => do
      let found ← if tag = .var then declaredVariable? before tree e else pure none
      declaredVariables (before ++ found.toList) rest

/-- Which variables the value of each one reads, by their positions. -/
def dependencies (names : List String) (values : List (Option (Expression α (Value α)))) :
    List (List Nat) :=
  values.map fun value =>
    ((value.map Expression.freeNames).getD []).filterMap fun name =>
      names.findIdx? (· == name)

/-- Reports a cycle of variables, at the value of the first one. -/
def reportCycle (declared : List DeclaredVariable) (cycle : List Nat) : Binder Unit := do
  let members := cycle.filterMap fun i => declared[i]?
  match members with
  | [] => return
  | first :: _ =>
      let chain := members.map (·.name) ++ [first.name]
      error first.value.valueSpan (EvalError.recursion chain).message

/-- The type of a variable: the declared one, or that of the value. -/
def variableType (s : Scope α) (d : DeclaredVariable) (value : Option (Expression α (Value α))) :
    ValueType :=
  match d.type, value with
  | some type, _ => type
  | none, some (.formula f) => (f.ast.check s).type
  | none, some (.constant v) => v.type
  | none, none => .any

/-- Reads the variables declared in a figure, and the scope in which they have their values. -/
def figureVariables (children : List Tree) (s : Scope α) :
    Binder (List (Variable α) × Scope α) := do
  let declared ← declaredVariables [] (Tree.elements children)
  let inner := declared.foldl (fun s d => s.declare d.name d.knownType) s.child
  let values ← declared.mapM fun d => d.value.expression? d.knownType inner none
  let cycles := cyclesOf (dependencies (declared.map (·.name)) values)
  cycles.forM (reportCycle declared)
  let cut := values.mapIdx fun i value => if cycles.any (·.contains i) then none else value
  let vars := (declared.zip cut).map fun (d, value) =>
    (⟨d.name, variableType inner d value, value, d.span⟩ : Variable α)
  return (vars, variableScope s vars)

end PatternMarkup
