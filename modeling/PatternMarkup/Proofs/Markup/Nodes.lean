import PatternMarkup.Markup.Arena
/-!
What each change of an arena does to its nodes, and that a tree depends only on the nodes from its
root on.
-/

namespace PatternMarkup

namespace Node

theorem origin_mapElement (n : Node) (f : Element → Element) :
    (n.mapElement f).origin = n.origin := by
  obtain ⟨kind, span, parent, origin⟩ := n
  cases kind <;> rfl

theorem element?_eq_some {n : Node} {e : Element} :
    n.element? = some e ↔ n.kind = .element e := by
  obtain ⟨kind, span, parent, origin⟩ := n
  cases kind <;> simp [element?]

theorem kind_mapElement_of_element {n : Node} {e : Element} (h : n.kind = .element e)
    (f : Element → Element) : (n.mapElement f).kind = .element (f e) := by
  obtain ⟨kind, span, parent, origin⟩ := n
  subst h
  rfl

theorem withoutChildren_of_children {n : Node} (h : n.children = []) : n.withoutChildren = n := by
  obtain ⟨kind, span, parent, origin⟩ := n
  cases kind with
  | element e =>
      obtain ⟨name, nameSpan, attributes, children, endTag, selfClosing⟩ := e
      obtain rfl : children = [] := h
      rfl
  | _ => rfl

theorem mapElement_append_nil (n : Node) :
    n.mapElement (fun e => { e with children := e.children ++ [] }) = n := by
  obtain ⟨kind, span, parent, origin⟩ := n
  cases kind <;> simp [mapElement]

theorem mapElement_append_append (n : Node) (ids more : List NodeId) :
    (n.mapElement fun e => { e with children := e.children ++ ids }).mapElement
        (fun e => { e with children := e.children ++ more })
      = n.mapElement fun e => { e with children := e.children ++ (ids ++ more) } := by
  obtain ⟨kind, span, parent, origin⟩ := n
  cases kind <;> simp [mapElement]

end Node

namespace Arena

/-! ### Nodes that do not exist -/

theorem node_of_size_le (a : Arena) {id : NodeId} (h : a.size ≤ id) : a.node id = Node.absent := by
  rw [node, Array.getD_eq_getD_getElem?, Array.getElem?_eq_none h]
  rfl

theorem lt_size_of_element (a : Arena) {id : NodeId} {e : Element}
    (h : (a.node id).kind = .element e) : id < a.size := by
  refine Nat.lt_of_not_le fun hid => ?_
  rw [a.node_of_size_le hid] at h
  cases h

theorem lt_size_of_element? {a : Arena} {id : NodeId} {e : Element}
    (h : a.element? id = some e) : id < a.size :=
  a.lt_size_of_element (Node.element?_eq_some.mp h)

theorem children_of_size_le (a : Arena) {id : NodeId} (h : a.size ≤ id) : a.children id = [] := by
  rw [children, a.node_of_size_le h]
  rfl

/-! ### Nodes after a change -/

theorem size_add (a : Arena) (n : Node) : (a.add n).size = a.size + 1 := by
  rw [size, add, Array.size_push, size]

theorem lt_size_add (a : Arena) (n : Node) : a.size < (a.add n).size := by
  rw [size_add]
  exact Nat.lt_succ_self _

theorem node_add_size (a : Arena) (n : Node) : (a.add n).node a.size = n.withoutChildren := by
  simp [node, add, size]

theorem node_add_of_lt (a : Arena) (n : Node) {id : NodeId} (h : id < a.size) :
    (a.add n).node id = a.node id := by
  simp only [node, add, Array.getD_eq_getD_getElem?, Array.getElem?_push]
  rw [if_neg (show id ≠ a.nodes.size from Nat.ne_of_lt h)]

theorem size_updateElement (a : Arena) (id : NodeId) (f : Element → Element)
    (hf : ∀ e, (f e).children = e.children) : (a.updateElement id f hf).size = a.size := by
  rw [size, updateElement, update, Array.size_modify, size]

theorem node_updateElement_of_ne (a : Arena) {id other : NodeId} (f : Element → Element)
    (hf : ∀ e, (f e).children = e.children) (h : other ≠ id) :
    (a.updateElement id f hf).node other = a.node other := by
  simp only [node, updateElement, update, Array.getD_eq_getD_getElem?, Array.getElem?_modify]
  rw [if_neg h.symm]

theorem node_updateElement_self (a : Arena) (id : NodeId) (f : Element → Element)
    (hf : ∀ e, (f e).children = e.children) :
    (a.updateElement id f hf).node id = (a.node id).mapElement f := by
  simp only [node, updateElement, update, Array.getD_eq_getD_getElem?, Array.getElem?_modify]
  rw [if_pos trivial]
  cases a.nodes[id]? <;> rfl

theorem size_addChild (a : Arena) (parent child : NodeId) :
    (a.addChild parent child).size = a.size := by
  unfold addChild
  split
  · rw [size, Array.size_modify, size]
  · rfl

theorem node_addChild_of_ne (a : Arena) {parent other : NodeId} (child : NodeId)
    (h : other ≠ parent) : (a.addChild parent child).node other = a.node other := by
  unfold addChild
  split
  · simp only [node, Array.getD_eq_getD_getElem?, Array.getElem?_modify]
    rw [if_neg h.symm]
  · rfl

theorem node_addChild_self (a : Arena) {parent child : NodeId} (hlt : parent < child)
    (hchild : child < a.size) :
    (a.addChild parent child).node parent
      = (a.node parent).mapElement fun e => { e with children := e.children ++ [child] } := by
  rw [addChild, dif_pos ⟨hlt, hchild⟩]
  simp only [node, Array.getD_eq_getD_getElem?, Array.getElem?_modify]
  rw [if_pos trivial]
  cases a.nodes[parent]? <;> rfl

/-- A new node without children that becomes the last child of an earlier one. -/
def addBelow (a : Arena) (parent : NodeId) (n : Node) : Arena := (a.add n).addChild parent a.size

theorem size_addBelow (a : Arena) (parent : NodeId) (n : Node) :
    (a.addBelow parent n).size = a.size + 1 := by
  rw [addBelow, size_addChild, size_add]

theorem node_addBelow_size (a : Arena) {parent : NodeId} {n : Node} (hn : n.children = [])
    (hparent : parent < a.size) : (a.addBelow parent n).node a.size = n := by
  rw [addBelow, node_addChild_of_ne _ _ (Nat.ne_of_gt hparent), node_add_size,
    Node.withoutChildren_of_children hn]

theorem node_addBelow_of_ne (a : Arena) {parent id : NodeId} (n : Node) (hid : id < a.size)
    (hne : id ≠ parent) : (a.addBelow parent n).node id = a.node id := by
  rw [addBelow, node_addChild_of_ne _ _ hne, node_add_of_lt a n hid]

theorem node_addBelow_parent (a : Arena) {parent : NodeId} (n : Node) (hparent : parent < a.size) :
    (a.addBelow parent n).node parent
      = (a.node parent).mapElement fun e => { e with children := e.children ++ [a.size] } := by
  rw [addBelow, node_addChild_self _ hparent (lt_size_add a n),
    node_add_of_lt a n hparent]

/-- A new node that becomes the end tag of an element. -/
def close (a : Arena) (id : NodeId) (n : Node) : Arena :=
  (a.add n).updateElement id (fun e => { e with endTag := some a.size }) fun _ => rfl

theorem size_close (a : Arena) (id : NodeId) (n : Node) : (a.close id n).size = a.size + 1 := by
  rw [close, size_updateElement, size_add]

theorem node_close_of_ne (a : Arena) {id other : NodeId} (n : Node) (hother : other < a.size)
    (hne : other ≠ id) : (a.close id n).node other = a.node other := by
  rw [close, node_updateElement_of_ne _ _ _ hne, node_add_of_lt a n hother]

theorem kind_close_self (a : Arena) {id : NodeId} (n : Node) (hid : id < a.size) {e : Element}
    (h : (a.node id).kind = .element e) :
    ((a.close id n).node id).kind = .element { e with endTag := some a.size } := by
  rw [close, node_updateElement_self, node_add_of_lt a n hid, Node.kind_mapElement_of_element h]

/-! ### Trees -/

theorem tree_eq (a : Arena) (id : NodeId) :
    a.tree id = .node id (a.node id) ((a.children id).map a.tree) := by
  rw [tree, List.attach_map_val]

/-- Arenas with the same nodes from a number on have the same trees from there on. The induction
is on the number of nodes after the root, as children come after their parent. -/
theorem tree_congr {a b : Arena} {low : NodeId}
    (h : ∀ id, low ≤ id → id < a.size → b.node id = a.node id) {id : NodeId} (hlow : low ≤ id)
    (hid : id < a.size) : b.tree id = a.tree id := by
  rw [tree_eq, tree_eq, children, children, h id hlow hid]
  congr 1
  refine List.map_congr_left fun c hc => ?_
  have hbounds := a.children_bounds hc
  exact tree_congr h (Nat.le_trans hlow (Nat.le_of_lt hbounds.1)) hbounds.2
termination_by a.size - id
decreasing_by
  omega

end Arena

end PatternMarkup
