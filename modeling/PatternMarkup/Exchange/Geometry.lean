import PatternMarkup.Geometry.Color
import PatternMarkup.Geometry.Path
import PatternMarkup.Geometry.Slicing
import PatternMarkup.Geometry.Transform
import PatternMarkup.Json.Basic
/-!
How points, rectangles, colors, paths and layouts are written as JSON, by name or as bare numbers.
-/

namespace PatternMarkup

/-- A point, member by member. -/
def Point.json (p : Point Float) : Json := .object [("x", .float p.x), ("y", .float p.y)]

/-- A size, member by member. -/
def Size.json (s : Size Float) : Json :=
  .object [("width", .float s.width), ("height", .float s.height)]

/-- A rectangle, member by member. -/
def Rect.json (r : Rect Float) : Json :=
  .object [("x", .float r.x), ("y", .float r.y), ("width", .float r.width),
    ("height", .float r.height)]

/-- Margins, member by member. -/
def Margins.json (m : Margins Float) : Json :=
  .object [("top", .float m.top), ("right", .float m.right), ("bottom", .float m.bottom),
    ("left", .float m.left)]

/-- A color, channel by channel. -/
def Color.json (c : Color Float) : Json :=
  .object [("r", .float c.r), ("g", .float c.g), ("b", .float c.b), ("a", .float c.a)]

/-- An affine map, coefficient by coefficient. -/
def Transform.json (m : Transform Float) : Json :=
  .object [("a", .float m.a), ("b", .float m.b), ("c", .float m.c), ("d", .float m.d),
    ("e", .float m.e), ("f", .float m.f)]

/-- A step of a path: its name and its points, of which a single one stands alone. -/
def PathCommand.json : PathCommand Float → Json
  | moveTo p => .object [("MoveTo", p.json)]
  | lineTo p => .object [("LineTo", p.json)]
  | quadTo c p => .object [("QuadTo", .list [c.json, p.json])]
  | cubicTo c d p => .object [("CubicTo", .list [c.json, d.json, p.json])]
  | close => .string "Close"

/-- A path, step by step. -/
def Path.json (path : Path Float) : Json :=
  .object [("commands", .list (path.commands.map PathCommand.json))]

/-- Several numbers. -/
def Json.floats (xs : List Float) : Json := .list (xs.map .float)

/-- A point as its two numbers. -/
def Point.flat (p : Point Float) : Json := .floats [p.x, p.y]

/-- A rectangle as its four numbers. -/
def Rect.flat (r : Rect Float) : Json := .floats [r.x, r.y, r.width, r.height]

/-- An affine map as its six numbers. -/
def Transform.flat (m : Transform Float) : Json := .floats [m.a, m.b, m.c, m.d, m.e, m.f]

/-- A point of two numbers. -/
def Point.ofFlat? (j : Json) : Option (Point Float) :=
  match j.numbers? with
  | some [x, y] => some ⟨x, y⟩
  | _ => none

/-- A size of two numbers. -/
def Size.ofFlat? (j : Json) : Option (Size Float) :=
  match j.numbers? with
  | some [width, height] => some ⟨width, height⟩
  | _ => none

/-- A rectangle of four numbers. -/
def Rect.ofFlat? (j : Json) : Option (Rect Float) :=
  match j.numbers? with
  | some [x, y, width, height] => some ⟨x, y, width, height⟩
  | _ => none

/-- An affine map of six numbers. -/
def Transform.ofFlat? (j : Json) : Option (Transform Float) :=
  match j.numbers? with
  | some [a, b, c, d, e, f] => some ⟨a, b, c, d, e, f⟩
  | _ => none

/-- The word for the kind of a part. -/
def SegmentKind.json : SegmentKind → Json
  | fixed => .string "Fixed"
  | proportional => .string "Proportional"

/-- An axis laid out. -/
def AxisScaling.json (s : AxisScaling Float) : Json :=
  .object [("scale", .float s.scale), ("reference_boundaries", .floats s.referenceBounds),
    ("realized_boundaries", .floats s.drawnBounds), ("kinds", .list (s.kinds.map (·.json)))]

/-- A rectangle laid out. -/
def SliceScaling.json (s : SliceScaling Float) : Json :=
  .object [("target", s.target.json), ("x", s.x.json), ("y", s.y.json)]

/-- A layout, its scale on both axes, and the drawn lengths of its parts. -/
def SliceScaling.members (s : SliceScaling Float) : List (String × Json) :=
  [("scaling", s.json), ("scale", .floats [s.x.scale, s.y.scale]),
    ("uniform", .float s.uniformScale),
    ("lengths", .list [.floats s.x.drawnLengths, .floats s.y.drawnLengths]),
    ("total", .floats [s.x.drawnTotal, s.y.drawnTotal])]

end PatternMarkup
