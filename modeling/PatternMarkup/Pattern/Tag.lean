/-!
What the elements of a document are for, by their names.
-/

namespace PatternMarkup

/-- The shapes that can be drawn. -/
inductive ShapeKind where
  | rect
  | ellipse
  | circle
  | line
  | polyline
  | polygon
  | path
deriving Repr, DecidableEq, Inhabited

/-- The paints that can be referred to. -/
inductive PaintKind where
  | solid
  | linear
  | radial
deriving Repr, DecidableEq, Inhabited

/-- The figures that elements stand for. -/
inductive FigureTag where
  | div
  | area
  | group
  | shape (kind : ShapeKind)
  | text
  | image
  | field
deriving Repr, DecidableEq, Inhabited

/-- What an element is for. -/
inductive Tag where
  | library
  | pattern
  | arg
  | args
  | validate
  | var
  | figure (tag : FigureTag)
  | defs
  | paint (kind : PaintKind)
  | stop
  | use
  | desc
  | title
  | unknown (name : String)
deriving Repr, DecidableEq, Inhabited

namespace Tag

/-- What an element of the given name is for. -/
def ofName (name : String) : Tag :=
  match name with
  | "library" => library
  | "pattern" => pattern
  | "arg" => arg
  | "args" => args
  | "validate" => validate
  | "var" => var
  | "div" => figure .div
  | "area" => figure .area
  | "group" => figure .group
  | "defs" => defs
  | "rect" => figure (.shape .rect)
  | "ellipse" => figure (.shape .ellipse)
  | "circle" => figure (.shape .circle)
  | "line" => figure (.shape .line)
  | "polyline" => figure (.shape .polyline)
  | "polygon" => figure (.shape .polygon)
  | "path" => figure (.shape .path)
  | "text" => figure .text
  | "image" => figure .image
  | "field" => figure .field
  | "solid" => paint .solid
  | "linear-gradient" => paint .linear
  | "radial-gradient" => paint .radial
  | "stop" => stop
  | "use" => use
  | "desc" => desc
  | "title" => title
  | other => unknown other

/-- Whether the element is read before the element it lies in. -/
def isDeclaration : Tag → Bool
  | arg => true
  | args => true
  | validate => true
  | var => true
  | _ => false

/-- Whether the element takes effect only where it is referred to. -/
def isReferencedOnly : Tag → Bool
  | paint _ => true
  | defs => true
  | _ => false

/-- Whether the element may lie among those a pattern draws. -/
def isDrawable : Tag → Bool
  | figure _ => true
  | use => true
  | _ => false

end Tag

end PatternMarkup
