import PatternMarkup.Geometry.Basic
/-!
Affine maps of the plane. The product of two maps applies the right one first.
-/

namespace PatternMarkup

/-- The affine map that sends `(x, y)` to `(a * x + c * y + e, b * x + d * y + f)`. -/
structure Transform (α : Type) where
  a : α
  b : α
  c : α
  d : α
  e : α
  f : α
deriving Repr, BEq, DecidableEq, Inhabited

namespace Transform

variable {α : Type} [Number α]

/-- The map that moves nothing. -/
def identity : Transform α :=
  ⟨Number.one, Number.zero, Number.zero, Number.one, Number.zero, Number.zero⟩

/-- A shift. -/
def translate (x y : α) : Transform α :=
  ⟨Number.one, Number.zero, Number.zero, Number.one, x, y⟩

/-- A stretch along the axes. -/
def scale (x y : α) : Transform α :=
  ⟨x, Number.zero, Number.zero, y, Number.zero, Number.zero⟩

/-- A rotation about zero by an angle in degrees. -/
def rotate (degrees : α) : Transform α :=
  let angle := Number.radians degrees
  let sine := Number.sin angle
  let cosine := Number.cos angle
  ⟨cosine, sine, -sine, cosine, Number.zero, Number.zero⟩

/-- A shear along the first axis by an angle in degrees. -/
def skewX (degrees : α) : Transform α :=
  ⟨Number.one, Number.zero, Number.tan (Number.radians degrees), Number.one, Number.zero,
    Number.zero⟩

/-- A shear along the second axis by an angle in degrees. -/
def skewY (degrees : α) : Transform α :=
  ⟨Number.one, Number.tan (Number.radians degrees), Number.zero, Number.one, Number.zero,
    Number.zero⟩

instance : Mul (Transform α) :=
  ⟨fun m n =>
    ⟨m.a * n.a + m.c * n.b, m.b * n.a + m.d * n.b, m.a * n.c + m.c * n.d,
      m.b * n.c + m.d * n.d, m.a * n.e + m.c * n.f + m.e, m.b * n.e + m.d * n.f + m.f⟩⟩

/-- A rotation about a point by an angle in degrees. -/
def rotateAbout (degrees x y : α) : Transform α :=
  translate x y * rotate degrees * translate (-x) (-y)

/-- The map, followed by another one. -/
def followedBy (m next : Transform α) : Transform α := next * m

/-- Whether the map moves nothing. -/
def isIdentity (m : Transform α) : Bool := m == identity

/-- The factor by which the map changes areas. -/
def determinant (m : Transform α) : α := m.a * m.d - m.b * m.c

/-- The map that undoes this one, unless it flattens the plane. -/
def invert? (m : Transform α) : Option (Transform α) :=
  let det := m.determinant
  if Number.abs det < Number.epsilon ∨ Number.isFinite det = false then none
  else some ⟨m.d / det, -m.b / det, -m.c / det, m.a / det, (m.c * m.f - m.d * m.e) / det,
    (m.b * m.e - m.a * m.f) / det⟩

/-- Where the map sends a point. -/
def apply (m : Transform α) (p : Point α) : Point α :=
  ⟨m.a * p.x + m.c * p.y + m.e, m.b * p.x + m.d * p.y + m.f⟩

/-- The factor by which the map changes lengths on average. -/
def meanScale (m : Transform α) : α := Number.sqrt (Number.abs m.determinant)

end Transform

end PatternMarkup
