/-!
Named fields, kept in the order of their names, at most one of each name.
-/

namespace PatternMarkup.Fields

variable {β : Type}

/-- Puts a field in its place; a field of the same name is replaced. -/
def insert (name : String) (value : β) : List (String × β) → List (String × β)
  | [] => [(name, value)]
  | (key, old) :: rest =>
      if name = key then (name, value) :: rest
      else if name < key then (name, value) :: (key, old) :: rest
      else (key, old) :: insert name value rest

/-- The value of a field. -/
def get? (name : String) : List (String × β) → Option β
  | [] => none
  | (key, value) :: rest => if key = name then some value else get? name rest

/-- The fields of a list in order; of two with the same name the later one stays. -/
def ofList (fields : List (String × β)) : List (String × β) :=
  fields.foldl (fun sorted (name, value) => insert name value sorted) []

end PatternMarkup.Fields
