import PatternMarkup.Number.Basic
/-!
Points, sizes, rectangles and margins of the plane. A rectangle may have negative extents;
what needs the ordinary form brings it there first.
-/

namespace PatternMarkup

/-- A point of the plane, or a vector. -/
structure Point (α : Type) where
  x : α
  y : α
deriving Repr, BEq, DecidableEq, Inhabited

/-- The extents of a rectangle. -/
structure Size (α : Type) where
  width : α
  height : α
deriving Repr, BEq, DecidableEq, Inhabited

/-- A rectangle: a corner and the extents from there. -/
structure Rect (α : Type) where
  x : α
  y : α
  width : α
  height : α
deriving Repr, BEq, DecidableEq, Inhabited

/-- What is cut off at the four sides of a rectangle. -/
structure Margins (α : Type) where
  top : α
  right : α
  bottom : α
  left : α
deriving Repr, BEq, DecidableEq, Inhabited

variable {α : Type} [Number α]

namespace Point

/-- The point at zero. -/
def origin : Point α := ⟨Number.zero, Number.zero⟩

instance : Add (Point α) := ⟨fun p q => ⟨p.x + q.x, p.y + q.y⟩⟩

instance : Sub (Point α) := ⟨fun p q => ⟨p.x - q.x, p.y - q.y⟩⟩

/-- The point with both coordinates multiplied. -/
def scale (p : Point α) (k : α) : Point α := ⟨p.x * k, p.y * k⟩

/-- Whether both coordinates are finite. -/
def isFinite (p : Point α) : Bool := Number.isFinite p.x && Number.isFinite p.y

/-- The Euclidean distance of two points. -/
def distance (p q : Point α) : α :=
  let dx := p.x - q.x
  let dy := p.y - q.y
  Number.sqrt (dx * dx + dy * dy)

end Point

/-- Whether one of the extents is not positive. -/
def Size.isEmpty (s : Size α) : Bool :=
  decide (s.width ≤ Number.zero) || decide (s.height ≤ Number.zero)

namespace Rect

/-- The rectangle of the given size at zero. -/
def ofSize (s : Size α) : Rect α := ⟨Number.zero, Number.zero, s.width, s.height⟩

/-- The corner from which the extents are counted. -/
def origin (r : Rect α) : Point α := ⟨r.x, r.y⟩

/-- The extents. -/
def size (r : Rect α) : Size α := ⟨r.width, r.height⟩

/-- The corner across from the origin. -/
def corner (r : Rect α) : Point α := ⟨r.x + r.width, r.y + r.height⟩

/-- The middle of the rectangle. -/
def center (r : Rect α) : Point α :=
  ⟨r.x + r.width / Number.two, r.y + r.height / Number.two⟩

/-- Whether one of the extents is not positive. -/
def isEmpty (r : Rect α) : Bool := r.size.isEmpty

/-- The same rectangle with extents that are not negative. -/
def normalized (r : Rect α) : Rect α :=
  let (x, width) := if r.width < Number.zero then (r.x + r.width, -r.width) else (r.x, r.width)
  let (y, height) :=
    if r.height < Number.zero then (r.y + r.height, -r.height) else (r.y, r.height)
  ⟨x, y, width, height⟩

/-- The rectangle that two points span. -/
def ofPoints (p q : Point α) : Rect α := normalized ⟨p.x, p.y, q.x - p.x, q.y - p.y⟩

/-- Whether a point lies inside; the upper sides do not belong to the rectangle. -/
def contains (r : Rect α) (p : Point α) : Bool :=
  let n := r.normalized
  decide (n.x ≤ p.x) && decide (n.y ≤ p.y) && decide (p.x < n.x + n.width) &&
    decide (p.y < n.y + n.height)

/-- The common part of two rectangles, if it has an area. -/
def intersect? (r s : Rect α) : Option (Rect α) :=
  let a := r.normalized
  let b := s.normalized
  let x := Number.max a.x b.x
  let y := Number.max a.y b.y
  let width := Number.min (a.x + a.width) (b.x + b.width) - x
  let height := Number.min (a.y + a.height) (b.y + b.height) - y
  if width ≤ Number.zero ∨ height ≤ Number.zero then none else some ⟨x, y, width, height⟩

/-- The rectangle inside margins; an extent used up becomes zero. -/
def inset (r : Rect α) (m : Margins α) : Rect α :=
  ⟨r.x + m.left, r.y + m.top, Number.positivePart (r.width - m.left - m.right),
    Number.positivePart (r.height - m.top - m.bottom)⟩

/-- The rectangle moved. -/
def translate (r : Rect α) (dx dy : α) : Rect α := ⟨r.x + dx, r.y + dy, r.width, r.height⟩

end Rect

namespace Margins

/-- The same margin at every side. -/
def uniform (m : α) : Margins α := ⟨m, m, m, m⟩

/-- Margins from one value for all sides, from a vertical and a horizontal one, or from four, of
which the top comes first and the rest follows clockwise. -/
def ofValues? : List α → Option (Margins α)
  | [all] => some (uniform all)
  | [vertical, horizontal] => some ⟨vertical, horizontal, vertical, horizontal⟩
  | [top, right, bottom, left] => some ⟨top, right, bottom, left⟩
  | _ => none

end Margins

end PatternMarkup
