import PatternMarkup.Markup.Document
/-!
Walking a document: every element, its attributes and what lies in it, in source order. A walk
may pass by what lies in certain elements. Together with what was skipped, the nodes that were
read, not copied, hold every byte of the text.
-/

namespace PatternMarkup

/-- What a walk comes by: a node, with its content where it is one. -/
inductive Visit where
  | element (id : NodeId) (element : Element)
  | attr (id : NodeId) (attr : Attribute)
  | text (id : NodeId) (content : String) (blank : Bool)
  | comment (id : NodeId) (content : String)
deriving Repr, DecidableEq, Inhabited

namespace Visit

/-- The node at which the visit takes place. -/
def node : Visit → NodeId
  | element id _ => id
  | attr id _ => id
  | text id _ _ => id
  | comment id _ => id

end Visit

namespace Tree

mutual

/-- The visits of a walk through a tree; an element for which `enters` fails is visited, but not
its attributes and children. -/
def visits (enters : NodeId → Element → Bool) : Tree → List Visit
  | node id content children =>
      match content.kind with
      | .element e =>
          .element id e ::
            (if enters id e then
              e.attributes.map (.attr id) ++ visitsOfAll enters children
            else [])
      | .text t blank => [.text id t blank]
      | .comment t => [.comment id t]
      | .endTag _ => []

/-- The visits of a walk through several trees. -/
def visitsOfAll (enters : NodeId → Element → Bool) : List Tree → List Visit
  | [] => []
  | tree :: rest => tree.visits enters ++ visitsOfAll enters rest

end

end Tree

/-- The visits of a walk through a document. -/
def Document.visits (doc : Document) (enters : NodeId → Element → Bool) : List Visit :=
  Tree.visitsOfAll enters (doc.topLevel.map doc.arena.tree)

end PatternMarkup

namespace PatternMarkup.Document

/-- The source spans of a document, in source order: its nodes, copies aside, and what was
skipped. -/
def sourceSpans (doc : Document) : List Span :=
  let read := doc.arena.nodes.toList.filter (·.origin.isNone)
  (read.map (·.span) ++ doc.skipped).mergeSort fun s t => decide (s.offset ≤ t.offset)

/-- The text that spans in source order hold, given that everything before the byte `done` is
taken already. A piece that does not lie between character ends is left out. -/
def textOfSpans (source : String) (done : Nat) : List Span → String
  | [] => ""
  | span :: rest =>
      let start := max span.offset done
      let stop := min span.stop source.utf8ByteSize
      if stop ≤ start then textOfSpans source done rest
      else
        match sliceBytes? source.toList ⟨start, stop⟩ with
        | some piece => String.ofList piece ++ textOfSpans source stop rest
        | none => textOfSpans source done rest

/-- The text put together again from the places that the document knows. -/
def reassemble (source : String) (doc : Document) : String :=
  textOfSpans source 0 doc.sourceSpans

/-- The ranges from the byte `cursor` up to `size` that spans in source order leave out. -/
def gaps (size : Nat) (cursor : Nat) : List Span → List ByteRange
  | [] => if cursor < size then [⟨cursor, size⟩] else []
  | span :: rest =>
      let later := gaps size (max cursor span.stop) rest
      if cursor < span.offset then ⟨cursor, span.offset⟩ :: later else later

/-- The ranges of the source that the document knows nothing about. -/
def uncovered (source : String) (doc : Document) : List ByteRange :=
  gaps source.utf8ByteSize 0 doc.sourceSpans

end PatternMarkup.Document
