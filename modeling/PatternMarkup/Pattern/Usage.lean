import PatternMarkup.Markup.Diagnostic
import PatternMarkup.Markup.Walk
/-!
What of a document has been read. Whatever is read through a copy counts for the node of the
source; what is never read is reported, the outermost node of it only.
-/

namespace PatternMarkup

/-- The nodes of the source that were read, and the attributes by element and position. -/
structure Usage where
  nodes : List NodeId := []
  attributes : List (NodeId × Nat) := []
deriving Repr, Inhabited

namespace Usage

/-- Marks a node of the source as read. -/
def markSource (u : Usage) (source : NodeId) : Usage :=
  if u.nodes.contains source then u else { u with nodes := source :: u.nodes }

/-- Marks a node as read. -/
def markNode (u : Usage) (arena : Arena) (id : NodeId) : Usage := u.markSource (arena.source id)

/-- Marks an attribute as read. -/
def markAttribute (u : Usage) (a : Attribute) : Usage :=
  let key := (a.owner, a.index)
  if u.attributes.contains key then u else { u with attributes := key :: u.attributes }

/-- Marks a node with its attributes, but not what lies in it. -/
def markWhole (u : Usage) (id : NodeId) (n : Node) : Usage :=
  let attributes := (n.element?.map (·.attributes)).getD []
  attributes.foldl markAttribute (u.markSource (n.source id))

mutual

/-- Marks a tree with all attributes in it. -/
def markTree (u : Usage) : Tree → Usage
  | .node id content children => markTrees (u.markWhole id content) children

/-- Marks several trees. -/
def markTrees (u : Usage) : List Tree → Usage
  | [] => u
  | tree :: rest => markTrees (u.markTree tree) rest

end

/-- Marks a node with its attributes and all that lies in it. -/
def markSubtree (u : Usage) (arena : Arena) (id : NodeId) : Usage := u.markTree (arena.tree id)

/-- Whether a node was read. -/
def usesNode (u : Usage) (arena : Arena) (id : NodeId) : Bool :=
  u.nodes.contains (arena.source id)

/-- Whether an attribute was read. -/
def usesAttribute (u : Usage) (a : Attribute) : Bool := u.attributes.contains (a.owner, a.index)

/-- The report of what a walk comes by, if it was not read. -/
def report? (u : Usage) (arena : Arena) : Visit → Option Diagnostic
  | .element id e =>
      if u.usesNode arena id then none
      else some (.warning .meaning (arena.node id).span ("<" ++ e.name ++ "> is never used"))
  | .attr id a =>
      if u.usesAttribute a then none
      else
        let owner := ((arena.element? id).map (·.name)).getD ""
        some (.warning .meaning a.nameSpan
          ("attribute '" ++ a.name ++ "' on <" ++ owner ++ "> is never used"))
  | .text id _ blank =>
      if blank || u.usesNode arena id then none
      else some (.warning .meaning (arena.node id).span "text is never used")
  | .comment _ _ => none

/-- The reports of all that was not read: of an element without those of what lies in it. -/
def unused (u : Usage) (doc : Document) : List Diagnostic :=
  (doc.visits fun id _ => u.usesNode doc.arena id).filterMap (u.report? doc.arena)

end Usage

end PatternMarkup
