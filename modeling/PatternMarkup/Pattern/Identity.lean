import PatternMarkup.Markup.Arena
/-!
Which figures come from which nodes. A figure of a copied node belongs to the copy and to the
node of the source.
-/

namespace PatternMarkup

/-- The number of a figure, in the order in which the figures of a document are entered. -/
abbrev FigureId := Nat

/-- A figure, the node it was bound from, and the node of the source behind that. -/
structure Identification where
  figure : FigureId
  node : NodeId
  source : NodeId
deriving Repr, DecidableEq, Inhabited

/-- The figures of a document, in the order in which they were completed. -/
structure IdentityMap where
  figures : List Identification := []
deriving Repr, DecidableEq, Inhabited

namespace IdentityMap

/-- Adds a figure. -/
def record (m : IdentityMap) (i : Identification) : IdentityMap := ⟨m.figures ++ [i]⟩

/-- The figures of a node. -/
def figuresOf (m : IdentityMap) (node : NodeId) : List FigureId :=
  (m.figures.filter fun i => i.node == node || i.source == node).map (·.figure)

/-- The node a figure was bound from. -/
def nodeOf? (m : IdentityMap) (figure : FigureId) : Option NodeId :=
  (m.figures.find? (·.figure == figure)).map (·.node)

/-- The node of the source behind a figure. -/
def sourceOf? (m : IdentityMap) (figure : FigureId) : Option NodeId :=
  (m.figures.find? (·.figure == figure)).map (·.source)

/-- The number of figures. -/
def size (m : IdentityMap) : Nat := m.figures.length

/-- The nodes that have figures, each once. -/
def nodes (m : IdentityMap) : List NodeId :=
  (m.figures.flatMap fun i => [i.node, i.source]).eraseDups

end IdentityMap

end PatternMarkup
