import PatternMarkup.Markup.Arena
import PatternMarkup.Markup.Scanner
/-!
Documents: the tree that the tokens of a markup text form. Building never fails; an element that
is not closed ends where the element around it ends, and an end tag without an element is skipped.
-/

namespace PatternMarkup

/-- What is read from a markup text. -/
structure Document where
  arena : Arena
  /-- The first element outside all others. -/
  root : Option NodeId
  /-- The nodes outside all elements, in source order. -/
  topLevel : List NodeId
  /-- The source that no node stands for. -/
  skipped : List Span
  /-- What is wrong with the text: the faults of its tokens, then those of its tree. -/
  faults : List PlacedFault
deriving Inhabited

/-- A tree under construction. -/
structure TreeBuilder where
  arena : Arena := .empty
  /-- The elements that are not closed yet, the innermost first. -/
  unclosed : List NodeId := []
  root : Option NodeId := none
  topLevel : Array NodeId := #[]
  skipped : Array Span := #[]
  faults : Array PlacedFault := #[]
deriving Inhabited

namespace TreeBuilder

/-- Records a fault. -/
def report (b : TreeBuilder) (fault : MarkupFault) (span : Span) : TreeBuilder :=
  { b with faults := b.faults.push ⟨fault, span⟩ }

/-- Records source that no node stands for. -/
def skip (b : TreeBuilder) (span : Span) : TreeBuilder :=
  { b with skipped := b.skipped.push span }

/-- Adds a node at the end of the innermost open element, or outside all elements. -/
def attach (b : TreeBuilder) (kind : NodeKind) (span : Span) : TreeBuilder :=
  let id := b.arena.size
  match b.unclosed with
  | [] => { b with
      arena := b.arena.add ⟨kind, span, none, none⟩
      topLevel := b.topLevel.push id }
  | parent :: _ => { b with
      arena := (b.arena.add ⟨kind, span, some parent, none⟩).addChild parent id }

/-- The attributes of a start tag, as those of the element `owner`. -/
def ownedAttributes (owner : NodeId) (attributes : List RawAttribute) : List Attribute :=
  attributes.mapIdx fun index raw =>
    ⟨raw.name, raw.value, raw.nameSpan, raw.valueSpan, owner, index, raw.verbatim⟩

/-- Adds the element of a start tag and opens it unless it closes itself. -/
def startTag (b : TreeBuilder) (name : String) (nameSpan : Span) (attributes : List RawAttribute)
    (selfClosing : Bool) (span : Span) : TreeBuilder :=
  let outermost := b.unclosed.isEmpty
  let b := if outermost && b.root.isSome then b.report .multipleRoots nameSpan else b
  let id := b.arena.size
  let element : Element := ⟨name, nameSpan, ownedAttributes id attributes, [], none, selfClosing⟩
  let b := b.attach (.element element) span
  let b := if outermost && b.root.isNone then { b with root := some id } else b
  if selfClosing then b else { b with unclosed := id :: b.unclosed }

/-- Whether a node is an element of the given name. -/
def isElementNamed (arena : Arena) (name : String) (id : NodeId) : Bool :=
  ((arena.element? id).map (·.name)) == some name

/-- Records that an element is not closed, at the name in its start tag. -/
def reportUnclosed (b : TreeBuilder) (id : NodeId) : TreeBuilder :=
  match b.arena.element? id with
  | some e => b.report (.unclosedElement e.name) e.nameSpan
  | none => b

/-- Closes the innermost open element of the given name and every element opened inside it. -/
def endTag (b : TreeBuilder) (name : String) (span : Span) : TreeBuilder :=
  match b.unclosed.span fun id => !isElementNamed b.arena name id with
  | (_, []) => (b.report (.unmatchedEndTag name) span).skip span
  | (inner, closing :: outer) =>
      let b := inner.reverse.foldl reportUnclosed b
      let id := b.arena.size
      { b with
        arena := (b.arena.add ⟨.endTag name, span, some closing, none⟩).updateElement closing
          (fun e => { e with endTag := some id }) fun _ => rfl
        unclosed := outer }

/-- Takes in the next token. -/
def token (keepComments : Bool) (b : TreeBuilder) (t : Token) : TreeBuilder :=
  match t.kind with
  | .startTag name nameSpan attributes selfClosing =>
      b.startTag name nameSpan attributes selfClosing t.span
  | .endTag name => b.endTag name t.span
  | .text content blank =>
      let b := if b.unclosed.isEmpty && !blank then b.report .textOutsideRoot t.span else b
      b.attach (.text content blank) t.span
  | .comment content =>
      if keepComments then b.attach (.comment content) t.span else b.skip t.span
  | .skipped => b.skip t.span

/-- Reports the elements left open, the outermost first. -/
def finish (b : TreeBuilder) : TreeBuilder := b.unclosed.reverse.foldl reportUnclosed b

/-- The tree of a list of tokens. -/
def ofTokens (keepComments : Bool) (tokens : List Token) : TreeBuilder :=
  (tokens.foldl (token keepComments) {}).finish

end TreeBuilder

namespace Document

/-- Reads a markup text. Comments become nodes only on request. -/
def ofSource (source : String) (keepComments : Bool) : Document :=
  let stream := TokenStream.ofSource source
  let b := TreeBuilder.ofTokens keepComments stream.tokens
  ⟨b.arena, b.root, b.topLevel.toList, b.skipped.toList, stream.faults ++ b.faults.toList⟩

/-- The reports of what is wrong with the text. -/
def diagnostics (doc : Document) : Diagnostics :=
  .ofList (doc.faults.map (·.diagnostic))

/-- The first element outside all others. -/
def rootElement? (doc : Document) : Option Element := doc.root.bind doc.arena.element?

end Document

end PatternMarkup
