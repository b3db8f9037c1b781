import PatternMarkup.Formula.Typed
import PatternMarkup.Markup.Span
/-!
The arguments a pattern declares. A plain argument takes one value, one per numbered attribute,
or an entry; a group takes one value per member.
-/

namespace PatternMarkup

/-- The text of an attribute as written, with its value. -/
structure WrittenValue (α : Type) where
  text : String
  span : Span
  value : Expression α (Value α)
deriving Inhabited

/-- Where an instance gives the value of an argument. -/
inductive ArgumentSource where
  /-- In the attribute of the argument's name. -/
  | singular
  /-- In the attributes of the argument's name with numbers after it, one item each. -/
  | numbered
  /-- Among the entries. -/
  | entry
deriving Repr, DecidableEq, Inhabited

/-- An argument with a value of its own. -/
structure PlainArgument (α : Type) where
  name : String
  /-- The variable that holds the value. -/
  var : String
  /-- The type of the value, or of one item if the argument is numbered. -/
  type : ValueType
  optional : Bool
  /-- What stands in for a missing value, or for a wrong item. -/
  fallback : Option (WrittenValue α)
  sample : Option (WrittenValue α)
  source : ArgumentSource
  test : Option (Expression α Bool)
  message : Option String
  span : Span
deriving Inhabited

/-- Arguments whose values form a record. -/
structure ArgumentGroup (α : Type) where
  name : String
  /-- The variable that holds the record. -/
  var : String
  optional : Bool
  members : List (PlainArgument α)
  test : Option (Expression α Bool)
  message : Option String
  span : Span
deriving Inhabited

/-- An argument of a pattern. -/
inductive Argument (α : Type) where
  | plain (arg : PlainArgument α)
  | group (group : ArgumentGroup α)
deriving Inhabited

variable {α : Type}

/-- The type of the variable that an argument gives a value. -/
def PlainArgument.bindingType (a : PlainArgument α) : ValueType :=
  match a.source with
  | .numbered => .list a.type
  | _ => a.type

/-- Whether an instance has to give the value. -/
def PlainArgument.isRequired (a : PlainArgument α) : Bool := !a.optional && a.fallback.isNone

/-- The type of the record: a field for the variable of each member. -/
def ArgumentGroup.type (g : ArgumentGroup α) : ValueType :=
  .record (Fields.ofList (g.members.map fun m => (m.var, m.bindingType)))

namespace Argument

/-- The name of an argument. -/
def name : Argument α → String
  | plain a => a.name
  | group g => g.name

/-- The variable of an argument. -/
def var : Argument α → String
  | plain a => a.var
  | group g => g.var

/-- The type of the variable. -/
def bindingType : Argument α → ValueType
  | plain a => a.bindingType
  | group g => g.type

/-- Whether an instance has to give the value. -/
def isRequired : Argument α → Bool
  | plain a => a.isRequired
  | group g => !g.optional

/-- What has to hold of the value. -/
def test : Argument α → Option (Expression α Bool)
  | plain a => a.test
  | group g => g.test

/-- Where the argument is declared. -/
def span : Argument α → Span
  | plain a => a.span
  | group g => g.span

/-- What a report says if the test fails. -/
def failureMessage (a : Argument α) : String :=
  let message :=
    match a with
    | plain a => a.message
    | group g => g.message
  message.getD ("argument '" ++ a.name ++ "' failed its test")

end Argument

/-- A condition on all arguments of a pattern together. -/
structure Validation (α : Type) where
  test : Expression α Bool
  message : String
  span : Span
deriving Inhabited

/-- The outcome of an argument's test for a value, if there is a test and it can be decided.
The formula of the test is read inside `outer`. -/
def PlainArgument.passes? [Number α] (a : PlainArgument α) (value : Expression α (Value α))
    (outer : Scope α) : Option Bool := do
  let test ← a.test
  let s := outer.child.bind a.var ⟨a.bindingType, .bound value⟩
  (test.evaluate s).toOption

end PatternMarkup
