import PatternMarkup.Fields
import PatternMarkup.Text.Blank
/-!
The types of formulas, and which of them may be used for which. `any` fits everywhere and takes
everything.
-/

namespace PatternMarkup

/-- The type of a formula, a variable or an argument. -/
inductive ValueType where
  | scalar
  | int
  | bool
  | string
  | color
  | transform
  | rect
  | size
  | point
  | margins
  /-- The path of a file. -/
  | path
  /-- One of several names. -/
  | enum (members : List String)
  | list (item : ValueType)
  /-- Named fields, in the order of their names. -/
  | record (fields : List (String × ValueType))
  | any
deriving Inhabited

namespace ValueType

/-! ### Equality -/

mutual

/-- Whether two types are the same. -/
def same : ValueType → ValueType → Bool
  | scalar, scalar => true
  | int, int => true
  | bool, bool => true
  | string, string => true
  | color, color => true
  | transform, transform => true
  | rect, rect => true
  | size, size => true
  | point, point => true
  | margins, margins => true
  | path, path => true
  | enum left, enum right => left == right
  | list left, list right => left.same right
  | record left, record right => sameFields left right
  | any, any => true
  | _, _ => false

/-- Whether two records have the same fields. -/
def sameFields : List (String × ValueType) → List (String × ValueType) → Bool
  | [], [] => true
  | (name, type) :: rest, (name', type') :: rest' =>
      name == name' && type.same type' && sameFields rest rest'
  | _, _ => false

end

instance : BEq ValueType := ⟨same⟩

/-! ### Text -/

/-- The text of an enumeration. -/
def enumText (members : List String) : String := "enum(" ++ "|".intercalate members ++ ")"

mutual

/-- The type as reports show it. -/
def text : ValueType → String
  | scalar => "scalar"
  | int => "int"
  | bool => "bool"
  | string => "string"
  | color => "color"
  | transform => "transform"
  | rect => "rect"
  | size => "size"
  | point => "point"
  | margins => "margins"
  | path => "path"
  | enum members => enumText members
  | list item => "list(" ++ item.text ++ ")"
  | record fields => "\x7b" ++ ", ".intercalate (fieldTexts fields) ++ "\x7d"
  | any => "any"

/-- The fields of a record type as reports show them. -/
def fieldTexts : List (String × ValueType) → List String
  | [] => []
  | (name, type) :: rest => (name ++ ": " ++ type.text) :: fieldTexts rest

end

/-- The pieces of a text between commas, without the blanks around them. -/
def commaPieces (text : String) : List String :=
  (text.splitOn ",").map trimText

/-- The type of a name; an enumeration has its members beside it, between commas. -/
def ofName? (name : String) (members : Option String) : Option ValueType :=
  match trimText name with
  | "scalar" => some scalar
  | "number" => some scalar
  | "int" => some int
  | "bool" => some bool
  | "string" => some string
  | "color" => some color
  | "transform" => some transform
  | "rect" => some rect
  | "size" => some size
  | "point" => some point
  | "margins" => some margins
  | "path" => some path
  | "enum" =>
      match (members.map commaPieces).map (·.filter (· != "")) with
      | some (first :: rest) => some (enum (first :: rest))
      | _ => none
  | _ => none

/-! ### Which type may be used for which -/

/-- Whether a type holds numbers, or may. -/
def isNumeric : ValueType → Bool
  | scalar => true
  | int => true
  | any => true
  | _ => false

/-- Whether a type holds text, or may. -/
def isTextual : ValueType → Bool
  | string => true
  | path => true
  | enum _ => true
  | any => true
  | _ => false

mutual

/-- Whether a value of the second type may be used where the first is expected. -/
def accepts : ValueType → ValueType → Bool
  | any, _ => true
  | _, any => true
  | scalar, int => true
  | string, string => true
  | path, string => true
  | enum _, string => true
  | string, path => true
  | string, enum _ => true
  | path, path => true
  | path, enum _ => true
  | enum left, enum right => right.all (left.contains ·)
  | list left, list right => left.accepts right
  | record left, record right => left.length == right.length && acceptsFields left right
  | left, right => left.same right

/-- Whether every field has a field of the same name and an accepted type in another record. -/
def acceptsFields : List (String × ValueType) → List (String × ValueType) → Bool
  | [], _ => true
  | (name, type) :: rest, others =>
      (match Fields.get? name others with
        | some other => type.accepts other
        | none => false) && acceptsFields rest others

end

/-- The type that fits two others, if one of them fits the other. -/
def unify (left right : ValueType) : ValueType :=
  if left.accepts right then left else if right.accepts left then right else any

end ValueType

end PatternMarkup
