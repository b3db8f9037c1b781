import PatternMarkup.Markup.Span
/-!
The nodes of a document, numbered in the order in which they were made. Children come after
their parent; this is part of the type, so a node and what lies below it form a finite `Tree`.
Copies of a subtree are added at the end and remember the node they were copied from.
-/

namespace PatternMarkup

/-- The number of a node. -/
abbrev NodeId := Nat

/-- An attribute of an element: its text and places, and the element and position where it was
written, which a copy keeps. -/
structure Attribute where
  name : String
  value : String
  nameSpan : Span
  valueSpan : Span
  owner : NodeId
  index : Nat
  verbatim : Bool
deriving Repr, DecidableEq, Inhabited

/-- The source span of a byte range of the value. A value with replaced references has no finer
place than its whole span. -/
def Attribute.subSpan (a : Attribute) (range : ByteRange) : Span :=
  if a.verbatim then a.valueSpan.narrow a.value range else a.valueSpan

/-- An element: its start tag, its children, and its end tag if it has one. -/
structure Element where
  name : String
  nameSpan : Span
  attributes : List Attribute
  children : List NodeId
  endTag : Option NodeId
  selfClosing : Bool
deriving Repr, DecidableEq, Inhabited

/-- The attribute of the given name. -/
def Element.attribute? (e : Element) (name : String) : Option Attribute :=
  e.attributes.find? (·.name == name)

/-- What a node is. -/
inductive NodeKind where
  | element (element : Element)
  | text (content : String) (blank : Bool)
  | comment (content : String)
  | endTag (name : String)
deriving Repr, DecidableEq, Inhabited

/-- A node, where it stands, the element it lies in, and the node it is a copy of. -/
structure Node where
  kind : NodeKind
  span : Span
  parent : Option NodeId
  origin : Option NodeId
deriving Repr, DecidableEq, Inhabited

namespace Node

/-- The element a node is, if it is one. -/
def element? (n : Node) : Option Element :=
  match n.kind with
  | .element e => some e
  | _ => none

/-- The children of a node; only elements have any. -/
def children (n : Node) : List NodeId :=
  match n.kind with
  | .element e => e.children
  | _ => []

/-- The node of the source that the node of number `id` stands for. -/
def source (n : Node) (id : NodeId) : NodeId := n.origin.getD id

/-- The node with its element changed, if it is one. -/
def mapElement (n : Node) (f : Element → Element) : Node :=
  match n.kind with
  | .element e => { n with kind := .element (f e) }
  | _ => n

/-- The same node without children. -/
def withoutChildren (n : Node) : Node := n.mapElement fun e => { e with children := [] }

@[simp] theorem children_withoutChildren (n : Node) : n.withoutChildren.children = [] := by
  obtain ⟨kind, span, parent, origin⟩ := n
  cases kind <;> rfl

theorem children_mapElement (n : Node) {f : Element → Element}
    (hf : ∀ e, (f e).children = e.children) : (n.mapElement f).children = n.children := by
  obtain ⟨kind, span, parent, origin⟩ := n
  cases kind <;> simp [mapElement, children, hf]

/-- A blank text, which stands for a node that does not exist. -/
def absent : Node := ⟨.text "" true, Span.origin, none, none⟩

end Node

/-- The nodes of a document. Every child exists and comes after its parent. -/
structure Arena where
  nodes : Array Node := #[]
  ordered : ∀ (i : Nat) (h : i < nodes.size), ∀ c ∈ nodes[i].children, i < c ∧ c < nodes.size :=
    by intro i h; exact absurd h (Nat.not_lt_zero i)

namespace Arena

/-- No nodes. -/
def empty : Arena := {}

instance : Inhabited Arena := ⟨empty⟩

/-- The number of nodes. -/
def size (a : Arena) : Nat := a.nodes.size

/-- The node of the given number. -/
def node (a : Arena) (id : NodeId) : Node := a.nodes.getD id Node.absent

/-- The element of the given number, if that node is one. -/
def element? (a : Arena) (id : NodeId) : Option Element := (a.node id).element?

/-- The children of a node. -/
def children (a : Arena) (id : NodeId) : List NodeId := (a.node id).children

/-- The attribute of a node by its name. -/
def attribute? (a : Arena) (id : NodeId) (name : String) : Option Attribute :=
  (a.element? id).bind (·.attribute? name)

/-- The node of the source that a node stands for: itself, or the one it is a copy of. -/
def source (a : Arena) (id : NodeId) : NodeId := (a.node id).source id

/-- The element a node lies in. -/
def parent? (a : Arena) (id : NodeId) : Option NodeId := (a.node id).parent

theorem children_bounds (a : Arena) {id c : Nat} (h : c ∈ a.children id) :
    id < c ∧ c < a.size := by
  unfold children node at h
  by_cases hid : id < a.nodes.size
  · rw [Array.getD_eq_getD_getElem?, Array.getElem?_eq_getElem hid, Option.getD_some] at h
    exact a.ordered id hid c h
  · rw [Array.getD_eq_getD_getElem?, Array.getElem?_eq_none (Nat.le_of_not_lt hid)] at h
    simp [Node.absent, Node.children] at h

/-- Adds a node without children at the end. -/
def add (a : Arena) (n : Node) : Arena where
  nodes := a.nodes.push n.withoutChildren
  ordered i h c hc := by
    rw [Array.getElem_push] at hc
    split at hc
    · rename_i hi
      have hbounds := a.ordered i hi c hc
      exact ⟨hbounds.1, by rw [Array.size_push]; exact Nat.lt_succ_of_lt hbounds.2⟩
    · simp at hc

/-- Changes what a node holds besides its children. -/
def update (a : Arena) (id : NodeId) (f : Node → Node) (hf : ∀ n, (f n).children = n.children) :
    Arena where
  nodes := a.nodes.modify id f
  ordered i h c hc := by
    rw [Array.size_modify] at h ⊢
    rw [Array.getElem_modify] at hc
    split at hc
    · rw [hf] at hc
      exact a.ordered i h c hc
    · exact a.ordered i h c hc

/-- Changes an element without changing its children. -/
def updateElement (a : Arena) (id : NodeId) (f : Element → Element)
    (hf : ∀ e, (f e).children = e.children) : Arena :=
  a.update id (·.mapElement f) fun n => n.children_mapElement hf

/-- Makes an existing later node the last child of an element. -/
def addChild (a : Arena) (parent child : NodeId) : Arena :=
  if hlt : parent < child ∧ child < a.nodes.size then
    { nodes := a.nodes.modify parent
        (·.mapElement fun e => { e with children := e.children ++ [child] })
      ordered := by
        intro i h c hc
        rw [Array.size_modify] at h ⊢
        rw [Array.getElem_modify] at hc
        split at hc
        · rename_i heq
          subst heq
          have hnode := a.ordered parent h c
          revert hc hnode
          generalize a.nodes[parent] = n
          obtain ⟨kind, span, parent', origin⟩ := n
          cases kind <;> simp only [Node.mapElement, Node.children, List.mem_append,
            List.mem_singleton, List.not_mem_nil, false_implies]
          rintro (hc | rfl) hnode
          · exact hnode hc
          · exact hlt
        · exact a.ordered i h c hc }
  else a

end Arena

/-- A node, its number, and the trees of its children. -/
inductive Tree where
  | node (id : NodeId) (content : Node) (children : List Tree)

namespace Tree

/-- The number of the root. -/
def id : Tree → NodeId
  | node id _ _ => id

/-- The node at the root. -/
def content : Tree → Node
  | node _ content _ => content

/-- The trees below the root. -/
def children : Tree → List Tree
  | node _ _ children => children

mutual

/-- The numbers of all nodes, each before those below it. -/
def ids : Tree → List NodeId
  | node id _ children => id :: idsOfAll children

/-- The numbers of the nodes of several trees, one tree after another. -/
def idsOfAll : List Tree → List NodeId
  | [] => []
  | tree :: rest => tree.ids ++ idsOfAll rest

end

mutual

/-- The source a tree covers: to the end tag if there is one, else to the end of the last
child. -/
def extent (arena : Arena) : Tree → Span
  | node _ content children =>
      match content.element?.bind (·.endTag) with
      | some endTag => content.span.join (arena.node endTag).span
      | none =>
          match extentOfLast arena children with
          | some last => content.span.join last
          | none => content.span

/-- The source the last of several trees covers. -/
def extentOfLast (arena : Arena) : List Tree → Option Span
  | [] => none
  | [tree] => some (tree.extent arena)
  | _ :: rest => extentOfLast arena rest

end

end Tree

namespace Arena

/-- The tree whose root has the given number. -/
def tree (a : Arena) (id : NodeId) : Tree :=
  .node id (a.node id) ((a.children id).attach.map fun c => a.tree c.1)
termination_by a.size - id
decreasing_by
  have hbounds := a.children_bounds c.2
  omega

/-- A node and everything below it, each node before those below it. -/
def descendants (a : Arena) (id : NodeId) : List NodeId := (a.tree id).ids

/-- The source a node covers, with everything below it. -/
def extent (a : Arena) (id : NodeId) : Span := (a.tree id).extent a

/-! ### Copies -/

mutual

/-- Adds a copy of a tree at the end, below `parent`. -/
def copyTree (parent : Option NodeId) (a : Arena) : Tree → Arena
  | .node id content children =>
      let copy := a.size
      let content := content.mapElement fun e => { e with endTag := none }
      copyTrees copy
        (a.add { content with parent, origin := some (content.source id) }) children

/-- Adds copies of several trees as the children of `parent`. -/
def copyTrees (parent : NodeId) (a : Arena) : List Tree → Arena
  | [] => a
  | tree :: rest =>
      let child := a.size
      copyTrees parent ((copyTree (some parent) a tree).addChild parent child) rest

end

/-- Replaces the first attribute of the same name, or adds one at the end. -/
def overrideAttribute (attributes : List Attribute) (a : Attribute) : List Attribute :=
  match attributes with
  | [] => [a]
  | b :: rest => if b.name = a.name then a :: rest else b :: overrideAttribute rest a

/-- Adds a copy of a node and everything below it; attributes of the root are overridden one
after another. The copy has no end tags, and every copied node points back to the node that
stands in the source. The root of the copy is the first node added. -/
def copySubtree (a : Arena) (id : NodeId) (overrides : List Attribute) : Arena :=
  (copyTree (a.node id).parent a (a.tree id)).updateElement a.size
    (fun e => { e with attributes := overrides.foldl overrideAttribute e.attributes })
    fun _ => rfl

end Arena

end PatternMarkup
