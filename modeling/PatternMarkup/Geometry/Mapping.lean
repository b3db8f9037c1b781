import PatternMarkup.Geometry.Slicing
import PatternMarkup.Geometry.Path
import PatternMarkup.Geometry.Transform
/-!
Maps from the coordinates of a figure to those of the canvas. A slicing is not affine, so a map
is a chain of steps, in which neighbouring affine maps are multiplied together.
-/

namespace PatternMarkup

/-- One step of a chain. -/
inductive MappingStep (α : Type) where
  | affine (map : Transform α)
  | slice (scaling : SliceScaling α)

/-- A chain of steps, the one next to the figure first. -/
structure Mapping (α : Type) where
  steps : List (MappingStep α)

variable {α : Type} [Number α]

namespace MappingStep

/-- Where a step sends a point. -/
def apply : MappingStep α → Point α → Point α
  | affine m, p => m.apply p
  | slice s, p => s.transform p

/-- The factor by which a step changes lengths on the whole. -/
def lengthScale : MappingStep α → α
  | affine m => m.meanScale
  | slice s => s.uniformScale

end MappingStep

namespace Mapping

/-- One affine map. -/
def ofTransform (m : Transform α) : Mapping α := ⟨[.affine m]⟩

/-- The map of what lies in a figure that is itself mapped affinely. -/
def transformed (m : Mapping α) (inner : Transform α) : Mapping α :=
  match m.steps with
  | .affine outer :: rest => ⟨.affine (outer * inner) :: rest⟩
  | steps => ⟨.affine inner :: steps⟩

/-- The map of what lies in a figure that is itself sliced. -/
def sliced (m : Mapping α) (inner : SliceScaling α) : Mapping α := ⟨.slice inner :: m.steps⟩

/-- Where a point is on the canvas. -/
def apply (m : Mapping α) (p : Point α) : Point α := m.steps.foldl (fun p step => step.apply p) p

/-- The factor by which lengths change on the whole; widths, radii and type sizes follow it. -/
def lengthScale (m : Mapping α) : α :=
  m.steps.foldr (fun step scale => scale * step.lengthScale) Number.one

/-- Where a path is on the canvas. -/
def path (m : Mapping α) (p : Path α) : Path α := p.map m.apply

/-- The rectangle between the places of two opposite corners. -/
def rect (m : Mapping α) (r : Rect α) : Rect α := .ofPoints (m.apply r.origin) (m.apply r.corner)

end Mapping

end PatternMarkup
