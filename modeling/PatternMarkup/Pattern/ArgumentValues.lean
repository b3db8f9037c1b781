import PatternMarkup.Pattern.Argument
/-!
The values of a pattern's arguments for one instance, by their variables.
-/

namespace PatternMarkup

variable {α : Type}

/-- The value of an argument: an expression, or one for each variable of a group. -/
inductive ArgumentValue (α : Type) where
  | single (value : Expression α (Value α))
  | group (members : List (String × Expression α (Value α)))
deriving Inhabited

namespace ArgumentValue

/-- Whether the value is known without a scope. -/
def isConstant : ArgumentValue α → Bool
  | single e => e.isConstant
  | group members => members.all (·.2.isConstant)

variable [Number α]

/-- The members of a group evaluated one after another. -/
def resolveMembers (s : Scope α) : List (String × Expression α (Value α)) →
    Except EvalError (List (String × Value α))
  | [] => .ok []
  | (name, member) :: rest => do
      let value ← member.evaluate s
      return (name, value) :: (← resolveMembers s rest)

/-- The value as one expression. A group becomes a record, or fails with its first member that
fails. -/
def resolve (s : Scope α) : ArgumentValue α → Except EvalError (Expression α (Value α))
  | single e => .ok e
  | group members => do return .constant (.record (← resolveMembers s members))

end ArgumentValue

/-- What an instance makes of an argument: the type of its variable, and its value if it has
one. -/
structure BoundArgument (α : Type) where
  type : ValueType
  value : Option (ArgumentValue α)
deriving Inhabited

/-- The arguments of an instance by their variables, in the order of names. -/
structure ArgumentValues (α : Type) where
  values : List (String × BoundArgument α) := []
deriving Inhabited

namespace ArgumentValues

/-- What a variable holds. -/
def get? (vs : ArgumentValues α) (var : String) : Option (BoundArgument α) :=
  Fields.get? var vs.values

/-- Whether a variable has a value. -/
def isBound (vs : ArgumentValues α) (var : String) : Bool :=
  (vs.get? var).any (·.value.isSome)

/-- The number of variables. -/
def size (vs : ArgumentValues α) : Nat := vs.values.length

/-- Gives the variable of an argument its value. -/
def insert (vs : ArgumentValues α) (a : Argument α) (value : Option (ArgumentValue α)) :
    ArgumentValues α :=
  ⟨Fields.insert a.var ⟨a.bindingType, value⟩ vs.values⟩

variable [Number α]

/-- The value of a variable, if it is known without a scope. -/
def constant? (vs : ArgumentValues α) (var : String) : Option (Value α) := do
  let value ← (← vs.get? var).value
  if value.isConstant then (← (value.resolve .empty).toOption).constant? else none

/-- What a variable stands for in formulas that are read inside `outer`. A group that fails
makes its variable fail for the same reason. -/
def binding (outer : Scope α) (b : BoundArgument α) : Binding α :=
  match b.value with
  | none => .declared b.type
  | some value =>
      match value.resolve outer with
      | .ok e => ⟨b.type, .bound e⟩
      | .error error => ⟨b.type, .failed error⟩

/-- A level with every variable, inside a scope. -/
def scope (vs : ArgumentValues α) (outer : Scope α) : Scope α :=
  vs.values.foldl (fun s (var, b) => s.bind var (binding outer b)) outer.child

end ArgumentValues

end PatternMarkup
