import PatternMarkup.Pattern.Bind.Value
/-!
Reading the arguments that a pattern declares, and its validations.
-/

namespace PatternMarkup

open Binder

variable {α : Type} [Number α]

/-- Reads the variable of an argument: that of the attribute `var`, or the name of the argument
with underscores for hyphens. Only the variable of a group's member may have a name of the
canvas. -/
def argumentVar? (e : Element) (name : String) (isMember : Bool) : Binder (Option String) := do
  let (var, span) ← do
    match ← attribute? e "var" with
    | some a => pure (trimText a.value, a.valueSpan)
    | none => pure (name.map fun c => if c = '-' then '_' else c, e.nameSpan)
  if !isIdentifier var then
    error span ("'" ++ var ++ "' is not a valid variable name")
    return none
  else if !isMember && Canvas.isReserved var then
    error span ("'" ++ var ++ "' is reserved by the canvas")
    return none
  else return some var

/-- Reads where an instance gives the value of an argument. -/
def argumentSource (e : Element) (isMember : Bool) : Binder ArgumentSource := do
  let numbered ← flag e "numbered"
  let entry ← flag e "entry"
  if numbered && entry then
    error e.nameSpan "an argument cannot be both numbered and an entry"
    return .singular
  else if (numbered || entry) && isMember then
    error e.nameSpan "group members must be plain arguments"
    return .singular
  else if numbered then return .numbered
  else if entry then return .entry
  else return .singular

/-- Reads the test of an argument and the message for its failure. -/
def argumentTest (e : Element) (var : String) (type : ValueType) :
    Binder (Option (Expression α Bool) × Option String) := do
  let s := (Canvas.declarations : Scope α).child.declare var type
  let test ← typed? e "test" s none
  return (test, ← attributeText? e "message")

/-- Reads a value that a declaration gives. -/
def writtenValue? (e : Element) (name : String) (type : ValueType) :
    Binder (Option (WrittenValue α)) := do
  match ← attribute? e name with
  | none => return none
  | some a =>
      return (← a.expression? type Canvas.declarations none).map fun value =>
        ⟨a.value, a.valueSpan, value⟩

/-- Drops a value that fails the test of its own argument. -/
def keepPassing (arg : PlainArgument α) (what : String) (w : Option (WrittenValue α)) :
    Binder (Option (WrittenValue α)) := do
  match w with
  | none => return none
  | some w =>
      if arg.passes? w.value Canvas.declarations = some false then
        report ((Diagnostic.warning .meaning w.span
          (what ++ " of '" ++ arg.name ++ "' is discarded")).because
            (arg.message.getD "its test fails"))
        return none
      else return some w

/-- Reads the type of an argument; one that is missing or unknown is reported. -/
def argumentType (e : Element) (name : String) : Binder ValueType := do
  match ← type? e "argument" with
  | some type => return type.getD .any
  | none =>
      error e.nameSpan ("argument '" ++ name ++ "' needs a 'type'")
      return .any

/-- Reads an argument with a value of its own. -/
def plainArgument? (tree : Tree) (e : Element) (isMember : Bool) :
    Binder (Option (PlainArgument α)) := do
  markNode tree
  match ← requiredAttribute? e "name" with
  | none => return none
  | some nameAttribute =>
      let name := trimText nameAttribute.value
      match ← argumentVar? e name isMember with
      | none => return none
      | some var =>
          let type ← argumentType e name
          let optional ← flag e "optional"
          let source ← argumentSource e isMember
          let bare : PlainArgument α :=
            ⟨name, var, type, optional, none, none, source, none, none, e.nameSpan⟩
          let (test, message) ← argumentTest e var bare.bindingType
          let arg := { bare with test, message }
          let fallback ← writtenValue? e "default" type
          let sample ← writtenValue? e "example" arg.bindingType
          let fallback ← if source = .numbered then pure fallback
            else keepPassing arg "default" fallback
          let sample ← keepPassing arg "example" sample
          return some { arg with fallback, sample }

/-- Reads the members of a group, one after another, besides those read before. -/
def groupMembers (group : String) (members : List (PlainArgument α)) :
    List (Tree × Element × Tag) → Binder (List (PlainArgument α))
  | [] => return members
  | (tree, e, tag) :: rest => do
      match tag with
      | .arg =>
          match (← plainArgument? tree e true : Option (PlainArgument α)) with
          | none => groupMembers group members rest
          | some m =>
              if members.any (·.var == m.var) then
                error m.span ("member '" ++ m.var ++ "' is declared twice in '" ++ group ++ "'")
                groupMembers group members rest
              else groupMembers group (members ++ [m]) rest
      | .desc | .title =>
          markTree tree
          groupMembers group members rest
      | _ =>
          reject tree ("<" ++ e.name ++ "> cannot appear inside <args>")
          groupMembers group members rest

/-- Reads a group of arguments. -/
def argumentGroup? (tree : Tree) (e : Element) : Binder (Option (ArgumentGroup α)) := do
  markNode tree
  match ← requiredAttribute? e "name" with
  | none => return none
  | some nameAttribute =>
      let name := trimText nameAttribute.value
      match ← argumentVar? e name false with
      | none => return none
      | some var =>
          let optional ← flag e "optional"
          let members ← groupMembers name [] (Tree.elements tree.children)
          if members.isEmpty then
            warning e.nameSpan ("argument group '" ++ name ++ "' has no members")
          let bare : ArgumentGroup α := ⟨name, var, optional, members, none, none, e.nameSpan⟩
          let (test, message) ← argumentTest e var bare.type
          return some { bare with test, message }

/-- Reads an argument of either kind, if the element declares one. -/
def argument? (tree : Tree) (e : Element) (tag : Tag) : Binder (Option (Argument α)) := do
  match tag with
  | .arg => return (← plainArgument? tree e false).map .plain
  | .args => return (← argumentGroup? tree e).map .group
  | _ => return none

/-- The argument in addition to others, unless its name or its variable is taken. `names` and
`vars` are those of all arguments read before, also of those left out. -/
def addArgument (names vars : List String) (arg : Argument α) : Binder (Bool × Bool) := do
  if names.contains arg.name then
    error arg.span ("argument '" ++ arg.name ++ "' is declared twice")
    return (false, false)
  else if vars.contains arg.var then
    error arg.span ("variable '" ++ arg.var ++ "' is already used by another argument")
    return (true, false)
  else return (true, true)

/-- Reads the arguments of a pattern one after another. -/
def declaredArguments (names vars : List String) :
    List (Tree × Element × Tag) → Binder (List (Argument α))
  | [] => return []
  | (tree, e, tag) :: rest => do
      match (← argument? tree e tag : Option (Argument α)) with
      | none => declaredArguments names vars rest
      | some arg =>
          let (newName, newVar) ← addArgument names vars arg
          let names := if newName then arg.name :: names else names
          let vars := if newVar then arg.var :: vars else vars
          let more ← declaredArguments names vars rest
          return if newVar then arg :: more else more

/-- Reads a validation. -/
def validation? (s : Scope α) (tree : Tree) (e : Element) : Binder (Option (Validation α)) := do
  markNode tree
  let message := (← attributeText? e "message").getD "validation failed"
  match ← requiredAttribute? e "test" with
  | none => return none
  | some a =>
      return (← a.typed? s none).map fun test => ⟨test, message, e.nameSpan⟩

/-- Reads the validations of a pattern. -/
def declaredValidations (s : Scope α) :
    List (Tree × Element × Tag) → Binder (List (Validation α))
  | [] => return []
  | (tree, e, tag) :: rest => do
      let first ← if tag = .validate then validation? s tree e else pure none
      return first.toList ++ (← declaredValidations s rest)

/-- The scope in which a pattern with the given arguments is bound. -/
def argumentScope (arguments : List (Argument α)) : Scope α :=
  arguments.foldl (fun s arg => s.declare arg.var arg.bindingType)
    (Canvas.declarations : Scope α).child

end PatternMarkup
