import PatternMarkup.Number.Double
/-!
JSON values, the form in which settings are read and results are written. An object keeps its
members in the order in which they are written.
-/

namespace PatternMarkup

/-- A JSON value. Whole numbers are kept apart from numbers with a fraction or an exponent. -/
inductive Json where
  | null
  | bool (b : Bool)
  | int (n : Int)
  | float (x : Float)
  | string (s : String)
  | list (items : List Json)
  | object (members : List (String × Json))
deriving Inhabited

namespace Json

/-- The last member of the given name, as it hides those before it. -/
def member? (j : Json) (name : String) : Option Json :=
  match j with
  | object members => (members.reverse.find? (·.1 == name)).map (·.2)
  | _ => none

/-- The last member of the given name, unless it is null. -/
def get? (j : Json) (name : String) : Option Json :=
  match j.member? name with
  | some null => none
  | other => other

/-- The text a value is, if it is one. -/
def text? : Json → Option String
  | string s => some s
  | _ => none

/-- The truth value a value is, if it is one. -/
def bool? : Json → Option Bool
  | bool b => some b
  | _ => none

/-- The integer a value is, if it is one. -/
def int? : Json → Option Int
  | int n => some n
  | _ => none

/-- The count a value is, if it is one. -/
def count? : Json → Option Nat
  | int n => if 0 ≤ n then some n.toNat else none
  | _ => none

/-- The number a value is, if it is one. -/
def number? : Json → Option Float
  | int n => some (Float.ofInt n)
  | float x => some x
  | _ => none

/-- The items of a list. -/
def items? : Json → Option (List Json)
  | list items => some items
  | _ => none

/-- The members of an object. -/
def members? : Json → Option (List (String × Json))
  | object members => some members
  | _ => none

/-- The numbers of a list of numbers. -/
def numbers? (j : Json) : Option (List Float) := do (← j.items?).mapM number?

/-- The texts of a list of texts. -/
def texts? (j : Json) : Option (List String) := do (← j.items?).mapM text?

/-- The value, or null. -/
def ofOption : Option Json → Json
  | some j => j
  | none => null

/-- A count as a number. -/
def count (n : Nat) : Json := int n

/-- Something in its JSON form, or null. -/
def optional {β : Type} (form : β → Json) (x : Option β) : Json := ofOption (x.map form)

/-- A list of counts. -/
def counts (ns : List Nat) : Json := list (ns.map count)

/-- A list of texts. -/
def strings (items : List String) : Json := list (items.map string)

/-- An object without the members that are absent. -/
def objectOf (members : List (String × Option Json)) : Json :=
  object (members.filterMap fun (name, value) => value.map (name, ·))

end Json

end PatternMarkup
