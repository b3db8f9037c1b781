import PatternMarkup.Formula.Typed
import PatternMarkup.Geometry.Path
import PatternMarkup.Pattern.Identity
/-!
What a pattern draws: a tree of figures whose attributes are expressions, to be evaluated for
each instance.
-/

namespace PatternMarkup

/-- How a figure's inside is sliced: the size it is laid out in, and the cuts. -/
structure SliceFormulas (α : Type) where
  reference : Expression α (Size α)
  xs : Expression α (List α)
  ys : Expression α (List α)
deriving Inhabited

/-- The place of a figure in the one around it. Without a position it is at the origin, without
an extent it fills what is left. -/
structure FigureFrame (α : Type) where
  x : Option (Expression α α) := none
  y : Option (Expression α α) := none
  width : Option (Expression α α) := none
  height : Option (Expression α α) := none
  margin : Option (Expression α (Margins α)) := none
  slicing : Option (SliceFormulas α) := none
deriving Inhabited

/-- A shape to be filled and stroked. -/
inductive Shape (α : Type) where
  | rect (x y width height : Expression α α) (rx ry : Option (Expression α α))
  | ellipse (cx cy rx ry : Expression α α)
  | circle (cx cy r : Expression α α)
  | line (x1 y1 x2 y2 : Expression α α)
  /-- Corners whose coordinates alternate. -/
  | corners (points : Expression α (List α)) (closed : Bool)
  | path (data : Path α)

/-- Which end of a text its position stands for. -/
inductive TextAnchor where
  | start
  | middle
  | stop
deriving Repr, DecidableEq, Inhabited

namespace TextAnchor

/-- The name of an anchor. -/
def name : TextAnchor → String
  | start => "start"
  | middle => "middle"
  | stop => "end"

/-- The anchor of a name. -/
def ofName? (name : String) : Option TextAnchor :=
  [start, middle, stop].find? (·.name == name)

end TextAnchor

/-- One line of text. -/
structure TextRun (α : Type) where
  x : Expression α α
  y : Expression α α
  fontSize : Expression α α
  fontFamily : Option (Expression α String)
  anchor : TextAnchor
  content : Expression α String

/-- An image file; without an extent it has its own. -/
structure Picture (α : Type) where
  x : Expression α α
  y : Expression α α
  width : Option (Expression α α)
  height : Option (Expression α α)
  href : Expression α FilePath

/-- A place that is filled from outside. -/
structure Slot (α : Type) where
  name : String
  x : Expression α α
  y : Expression α α
  width : Option (Expression α α)
  height : Option (Expression α α)

/-- A color at a place of a gradient. -/
structure GradientStop (α : Type) where
  offset : Expression α α
  color : Expression α (Color α)

/-- What fills or strokes a figure. Places of gradients are fractions of the figure's bounds. -/
inductive Paint (α : Type) where
  | color (color : Expression α (Color α))
  | linear (x1 y1 x2 y2 : Expression α α) (stops : List (GradientStop α))
  | radial (cx cy r : Expression α α) (stops : List (GradientStop α))

/-- How a figure looks. -/
structure Style (α : Type) where
  fill : Option (Paint α)
  stroke : Option (Paint α)
  strokeWidth : Expression α α
  textColor : Option (Expression α (Color α))
  visible : Expression α Bool
  /-- The maps of the figures around composed with the figure's own. -/
  transform : Expression α (Transform α)
  /-- The figure's own map. -/
  ownTransform : Option (Expression α (Transform α))
  /-- Whether what lies in the figure is cut off at its frame. -/
  clip : Bool

namespace Style

/-- The style outside all figures. -/
def initial {α : Type} [Number α] : Style α :=
  ⟨none, none, .constant Number.one, none, .constant true, .constant .identity, none, false⟩

/-- What a figure takes over from the one around it. -/
def inherited {α : Type} (s : Style α) : Style α := { s with ownTransform := none, clip := false }

end Style

/-- A figure drawn once for every item of a list. -/
structure Loop (α : Type) where
  item : String
  index : Option String
  items : Expression α (Value α)
  itemType : ValueType

/-- A variable of a figure. It has no value if that could not be read or needs itself. -/
structure Variable (α : Type) where
  name : String
  type : ValueType
  value : Option (Expression α (Value α))
  span : Span

/-- What a variable stands for. -/
def Variable.binding {α : Type} (v : Variable α) : Binding α :=
  match v.value with
  | some e => ⟨v.type, .bound e⟩
  | none => .declared v.type

/-- A level with variables, inside a scope; without variables there is none. -/
def variableScope {α : Type} (outer : Scope α) (vars : List (Variable α)) : Scope α :=
  if vars.isEmpty then outer
  else vars.foldl (fun s v => s.bind v.name v.binding) outer.child

/-- What a figure is. -/
inductive FigureKind (α : Type) where
  | div (frame : FigureFrame α)
  | area (role : String) (frame : FigureFrame α)
  | group
  | shape (shape : Shape α)
  | text (run : TextRun α)
  | image (picture : Picture α)
  | field (slot : Slot α)

/-- A figure without those in it. -/
structure FigureHead (α : Type) where
  id : FigureId
  /-- The node the figure was bound from. -/
  node : NodeId
  span : Span
  kind : FigureKind α
  style : Style α
  loop : Option (Loop α)
  vars : List (Variable α)

/-- The role of a figure that is an area. -/
def FigureHead.role? {α : Type} (head : FigureHead α) : Option String :=
  match head.kind with
  | .area role _ => some role
  | _ => none

/-- A figure and those in it. -/
inductive Figure (α : Type) where
  | mk (head : FigureHead α) (children : List (Figure α))

namespace Figure

variable {α : Type}

/-- The figure without those in it. -/
def head : Figure α → FigureHead α
  | mk head _ => head

/-- The figures in a figure. -/
def children : Figure α → List (Figure α)
  | mk _ children => children

mutual

/-- A figure and all in it, each before those in it. -/
def heads : Figure α → List (FigureHead α)
  | mk head children => head :: headsOfAll children

/-- Several figures and all in them. -/
def headsOfAll : List (Figure α) → List (FigureHead α)
  | [] => []
  | figure :: rest => figure.heads ++ headsOfAll rest

end

end Figure

end PatternMarkup
