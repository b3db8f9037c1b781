import PatternMarkup.Json.Writer
import PatternMarkup.Text.Quoted
/-!
Shapes of JSON values: what a text is asked to hold at a place.
-/

namespace PatternMarkup

/-- What a JSON text is asked to hold at a place. -/
inductive JsonShape where
  | anything
  /-- Anything, of which nothing is kept. -/
  | ignored
  | text
  | truth
  | list (item : JsonShape)
  /-- An object with members of these names, each at most once, or a list of their values in this
  order. Members may be missing, and members of other names are ignored. -/
  | record (name : String) (fields : List (String × JsonShape))
deriving Inhabited

/-- A value that is not of the shape asked for, as a report calls it. -/
def Json.description : Json → String
  | .null => "null"
  | .bool b => "boolean `" ++ (Json.bool b).compact ++ "`"
  | .int n => "integer `" ++ toString n ++ "`"
  | .float x => "floating point `" ++ numberText x ++ "`"
  | .string s => "string " ++ quoted s
  | .list _ => "sequence"
  | .object _ => "map"

namespace JsonShape

/-- What a report says was asked for. -/
def description : JsonShape → String
  | anything => "any value"
  | ignored => "any value"
  | text => "a string"
  | truth => "a boolean"
  | list _ => "a sequence"
  | record name _ => "struct " ++ name

/-- Whether values of this shape are not kept. -/
def isIgnored : JsonShape → Bool
  | ignored => true
  | _ => false

/-- Whether a value may have this shape, its parts aside. -/
def admits (shape : JsonShape) (j : Json) : Bool :=
  match shape, j with
  | anything, _ => true
  | ignored, _ => true
  | text, .string _ => true
  | truth, .bool _ => true
  | list _, .list _ => true
  | record _ _, .list _ => true
  | record _ _, .object _ => true
  | _, _ => false

/-- The shape of the item of a list that follows the given ones, if one may follow. -/
def itemAfter? (shape : JsonShape) (items : List Json) : Option JsonShape :=
  match shape with
  | anything => some anything
  | ignored => some ignored
  | list item => some item
  | record _ fields => (fields[items.length]?).map (·.2)
  | text => none
  | truth => none

/-- Whether members of the given name are kept. -/
def keeps (shape : JsonShape) (name : String) : Bool :=
  match shape with
  | anything => true
  | record _ fields => fields.any (·.1 == name)
  | _ => false

/-- Whether a member of the given name may stand only once. -/
def isField (shape : JsonShape) (name : String) : Bool :=
  match shape with
  | record _ fields => fields.any (·.1 == name)
  | _ => false

/-- The shape of a member. -/
def member (shape : JsonShape) (name : String) : JsonShape :=
  match shape with
  | anything => anything
  | record _ fields => ((fields.find? (·.1 == name)).map (·.2)).getD ignored
  | _ => ignored

/-- The value that a list is: that of a record stands for its members. -/
def ofItems (shape : JsonShape) (items : List Json) : Json :=
  match shape with
  | record _ fields => .object ((fields.map (·.1)).zip items)
  | _ => .list items

end JsonShape

end PatternMarkup
