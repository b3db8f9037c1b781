import PatternMarkup.Json.Basic
import PatternMarkup.Pattern.Basic
import PatternMarkup.Pattern.Reference
import PatternMarkup.Pattern.Tag
/-!
How the purposes of elements and the kinds of patterns are written as JSON.
-/

namespace PatternMarkup

/-- The name of a shape. -/
def ShapeKind.label : ShapeKind → String
  | rect => "Rect"
  | ellipse => "Ellipse"
  | circle => "Circle"
  | line => "Line"
  | polyline => "Polyline"
  | polygon => "Polygon"
  | path => "Path"

/-- The name of a paint. -/
def PaintKind.label : PaintKind → String
  | solid => "Solid"
  | linear => "LinearGradient"
  | radial => "RadialGradient"

/-- The name of a figure. -/
def FigureTag.label : FigureTag → String
  | div => "Div"
  | area => "Area"
  | group => "Group"
  | shape kind => "Shape(" ++ kind.label ++ ")"
  | text => "Text"
  | image => "Image"
  | field => "Field"

/-- What an element is for: a name, or the element's own name if it has no purpose. -/
def Tag.label : Tag → Json
  | library => .string "Library"
  | pattern => .string "Pattern"
  | arg => .string "Arg"
  | args => .string "Args"
  | validate => .string "Validate"
  | var => .string "Var"
  | figure tag => .string tag.label
  | defs => .string "Defs"
  | paint kind => .string ("Paint(" ++ kind.label ++ ")")
  | stop => .string "Stop"
  | use => .string "Use"
  | desc => .string "Desc"
  | title => .string "Title"
  | unknown name => .object [("unknown", .string name)]

/-- What an element is for, with what follows from it. -/
def Tag.json (t : Tag) : Json :=
  .object [("construct", t.label), ("declaration", .bool t.isDeclaration),
    ("referenced_only", .bool t.isReferencedOnly), ("drawable", .bool t.isDrawable)]

/-- The kind of a name, the name within a library, and the areas of the kind among `roles`. -/
def patternKindReport (library name : String) (roles : List String) : Json :=
  let kind := PatternKind.ofName? name
  .object [("type", .optional (fun k => .string k.name) kind),
    ("qualified", .string (qualifiedName library name)),
    ("known", .optional (fun k => .object [("required", .strings k.requiredRoles),
      ("optional", .strings k.optionalRoles), ("allows", .strings (roles.filter k.allowsRole)),
      ("shown", .string k.name)]) kind)]

end PatternMarkup
