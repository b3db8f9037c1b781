import PatternMarkup.Geometry.Basic
/-!
Paths of straight lines and curves, in absolute coordinates, so that a path can be sent through
any map of points; the outlines of rectangles and ellipses as paths, and the rectangle around a
path.
-/

namespace PatternMarkup

/-- A step of a path. -/
inductive PathCommand (α : Type) where
  | moveTo (p : Point α)
  | lineTo (p : Point α)
  | quadTo (control p : Point α)
  | cubicTo (control₁ control₂ p : Point α)
  | close
deriving Repr, BEq, DecidableEq, Inhabited

/-- A path, step by step. -/
structure Path (α : Type) where
  commands : List (PathCommand α) := []
deriving Repr, BEq, DecidableEq, Inhabited

variable {α : Type}

/-- The step with every point sent through a map. -/
def PathCommand.map (f : Point α → Point α) : PathCommand α → PathCommand α
  | moveTo p => moveTo (f p)
  | lineTo p => lineTo (f p)
  | quadTo c p => quadTo (f c) (f p)
  | cubicTo c d p => cubicTo (f c) (f d) (f p)
  | close => close

namespace Path

/-- The path with every point sent through a map. -/
def map (f : Point α → Point α) (path : Path α) : Path α :=
  ⟨path.commands.map (PathCommand.map f)⟩

/-- The path without steps. -/
def empty : Path α := ⟨[]⟩

/-- Whether a path has no steps. -/
def isEmpty (path : Path α) : Bool := path.commands.isEmpty

/-- The straight lines through points, which may return to the first. -/
def polyline (points : List (Point α)) (closed : Bool) : Path α :=
  match points with
  | [] => ⟨[]⟩
  | first :: rest =>
      ⟨.moveTo first :: rest.map .lineTo ++ (if closed then [.close] else [])⟩

end Path

/-! ### Outlines -/

/-- The points of a step, control points included. -/
def PathCommand.points : PathCommand α → List (Point α)
  | moveTo p => [p]
  | lineTo p => [p]
  | quadTo c p => [c, p]
  | cubicTo c d p => [c, d, p]
  | close => []

namespace Path

/-- The points of a path in order, control points included. -/
def points (path : Path α) : List (Point α) := path.commands.flatMap PathCommand.points

variable [Number α]

/-- The rectangle around points that contains a given one. -/
def hull (first : Point α) (points : List (Point α)) : Rect α :=
  let low := points.foldl (fun q p => ⟨Number.min q.x p.x, Number.min q.y p.y⟩) first
  let high := points.foldl (fun q p => ⟨Number.max q.x p.x, Number.max q.y p.y⟩) first
  .ofPoints low high

/-- The rectangle around all points of a path, control points included. -/
def bounds (path : Path α) : Rect α :=
  match path.points with
  | [] => ⟨Number.zero, Number.zero, Number.zero, Number.zero⟩
  | first :: rest => hull first rest

/-- The outline of a rectangle. -/
def ofRect (r : Rect α) : Path α :=
  let n := r.normalized
  polyline [n.origin, ⟨n.x + n.width, n.y⟩, n.corner, ⟨n.x, n.y + n.height⟩] true

/-- How far the control points of a quarter of a unit circle are from its ends, if it is drawn
as one curve. -/
def quarterControl : α := Number.ofDecimal 552284749831 (-12)

/-- The outline of a rectangle whose corners are quarters of an ellipse. Each radius is at most
half of its side, and without one of them the corners are sharp. -/
def roundedRect (r : Rect α) (rx ry : α) : Path α :=
  let n := r.normalized
  let rx := Number.clamp rx Number.zero (n.width / Number.two)
  let ry := Number.clamp ry Number.zero (n.height / Number.two)
  if rx == Number.zero || ry == Number.zero then ofRect n
  else
    let left := n.x
    let top := n.y
    let right := n.x + n.width
    let bottom := n.y + n.height
    let kx := rx * quarterControl
    let ky := ry * quarterControl
    ⟨[.moveTo ⟨left + rx, top⟩, .lineTo ⟨right - rx, top⟩,
      .cubicTo ⟨right - rx + kx, top⟩ ⟨right, top + ry - ky⟩ ⟨right, top + ry⟩,
      .lineTo ⟨right, bottom - ry⟩,
      .cubicTo ⟨right, bottom - ry + ky⟩ ⟨right - rx + kx, bottom⟩ ⟨right - rx, bottom⟩,
      .lineTo ⟨left + rx, bottom⟩,
      .cubicTo ⟨left + rx - kx, bottom⟩ ⟨left, bottom - ry + ky⟩ ⟨left, bottom - ry⟩,
      .lineTo ⟨left, top + ry⟩,
      .cubicTo ⟨left, top + ry - ky⟩ ⟨left + rx - kx, top⟩ ⟨left + rx, top⟩,
      .close]⟩

/-- The outline of an ellipse. -/
def ellipse (center : Point α) (rx ry : α) : Path α :=
  let cx := center.x
  let cy := center.y
  let kx := rx * quarterControl
  let ky := ry * quarterControl
  ⟨[.moveTo ⟨cx + rx, cy⟩,
    .cubicTo ⟨cx + rx, cy + ky⟩ ⟨cx + kx, cy + ry⟩ ⟨cx, cy + ry⟩,
    .cubicTo ⟨cx - kx, cy + ry⟩ ⟨cx - rx, cy + ky⟩ ⟨cx - rx, cy⟩,
    .cubicTo ⟨cx - rx, cy - ky⟩ ⟨cx - kx, cy - ry⟩ ⟨cx, cy - ry⟩,
    .cubicTo ⟨cx + kx, cy - ry⟩ ⟨cx + rx, cy - ky⟩ ⟨cx + rx, cy⟩,
    .close]⟩

end Path

end PatternMarkup
