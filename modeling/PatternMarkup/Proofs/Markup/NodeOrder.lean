import Mathlib.Data.List.Basic
import PatternMarkup.Markup.Document
import PatternMarkup.Proofs.Markup.Nodes
/-!
The order of nodes. In a document the number of a node says where it stands: a node comes before
what lies in it, that before its end tag, and all of it before what follows. The links between
nodes agree with each other, so every node has one place.
-/

namespace PatternMarkup

namespace Node

/-- Whether a node is an end tag. -/
def isEndTag (n : Node) : Bool :=
  match n.kind with
  | .endTag _ => true
  | _ => false

/-- The end tag of a node; only elements have one. -/
def endTag? (n : Node) : Option NodeId := n.element?.bind (·.endTag)

theorem isEndTag_of_children {n : Node} {c : NodeId} (h : c ∈ n.children) :
    n.isEndTag = false := by
  obtain ⟨kind, span, parent, origin⟩ := n
  cases kind with
  | element e => rfl
  | _ => cases h

end Node

namespace Tree

mutual

/-- The numbers of a tree in source order: the root, what lies below it, and its end tag. -/
def numbers : Tree → List NodeId
  | node id content children => id :: (numbersOfAll children ++ content.endTag?.toList)

/-- The numbers of several trees, one tree after another. -/
def numbersOfAll : List Tree → List NodeId
  | [] => []
  | tree :: rest => tree.numbers ++ numbersOfAll rest

end

theorem numbersOfAll_eq (trees : List Tree) : numbersOfAll trees = trees.flatMap numbers := by
  induction trees with
  | nil => rfl
  | cons tree rest ih => rw [numbersOfAll, List.flatMap_cons, ih]

theorem idsOfAll_eq (trees : List Tree) : idsOfAll trees = trees.flatMap ids := by
  induction trees with
  | nil => rfl
  | cons tree rest ih => rw [idsOfAll, List.flatMap_cons, ih]

end Tree

namespace Arena

/-- The numbers of the trees at some nodes, one tree after another. -/
def numbers (a : Arena) (ids : List NodeId) : List NodeId :=
  ids.flatMap fun id => (a.tree id).numbers

theorem numbers_tree (a : Arena) (id : NodeId) :
    (a.tree id).numbers = id :: (a.numbers (a.children id) ++ (a.node id).endTag?.toList) := by
  rw [tree_eq, Tree.numbers, Tree.numbersOfAll_eq, List.flatMap_map, numbers]

theorem mem_numbers_tree (a : Arena) (id : NodeId) : id ∈ (a.tree id).numbers := by
  rw [numbers_tree]
  exact List.mem_cons_self

theorem numbers_append (a : Arena) (front back : List NodeId) :
    a.numbers (front ++ back) = a.numbers front ++ a.numbers back :=
  List.flatMap_append

theorem numbers_singleton (a : Arena) (id : NodeId) :
    a.numbers [id] = (a.tree id).numbers := by
  simp [numbers]

theorem numbers_congr {a b : Arena} {ids : List NodeId} (h : ∀ id ∈ ids, b.tree id = a.tree id) :
    b.numbers ids = a.numbers ids := by
  refine List.flatMap_congr fun id hid => ?_
  rw [h id hid]

theorem numbers_tree_sublist {a : Arena} {id : NodeId} {ids : List NodeId} (h : id ∈ ids) :
    (a.tree id).numbers.Sublist (a.numbers ids) := by
  obtain ⟨front, back, rfl⟩ := List.append_of_mem h
  rw [numbers_append, ← List.singleton_append, numbers_append, numbers_singleton]
  exact (List.sublist_append_left _ _).trans (List.sublist_append_right _ _)

theorem numbers_children_sublist (a : Arena) (id : NodeId) :
    (a.numbers (a.children id)).Sublist (a.tree id).numbers := by
  rw [numbers_tree]
  exact (List.sublist_append_left _ _).trans (List.sublist_cons_self _ _)

/-- A tree depends only on the nodes in it. -/
theorem tree_congr_of_numbers {a b : Arena} {id : NodeId}
    (h : ∀ i ∈ (a.tree id).numbers, b.node i = a.node i) : b.tree id = a.tree id := by
  have hid := h id (a.mem_numbers_tree id)
  rw [tree_eq, tree_eq, children, children, hid]
  congr 1
  refine List.map_congr_left fun c hc => ?_
  have hbounds := a.children_bounds hc
  refine tree_congr_of_numbers fun i hi => h i ?_
  have hsub := (numbers_tree_sublist hc).trans (a.numbers_children_sublist id)
  exact hsub.subset hi
termination_by a.size - id
decreasing_by
  omega

/-! ### Links -/

/-- The nodes with a given parent: its children, or the nodes outside all elements. -/
def level (a : Arena) (topLevel : List NodeId) : Option NodeId → List NodeId
  | none => topLevel
  | some parent => a.children parent

/-- The links between nodes agree: a node stands among the nodes of its parent and nowhere else,
an end tag is that of its parent, and an element that closes itself is empty. -/
structure Linked (a : Arena) (topLevel : List NodeId) : Prop where
  up : ∀ parent, ∀ c ∈ a.level topLevel parent,
    c < a.size ∧ (a.node c).parent = parent ∧ (a.node c).isEndTag = false
  down : ∀ c < a.size, (a.node c).isEndTag = false → c ∈ a.level topLevel (a.node c).parent
  increasing : ∀ parent, (a.level topLevel parent).Pairwise (· < ·)
  endTag_up : ∀ p e c, (a.node p).kind = .element e → e.endTag = some c →
    c < a.size ∧ (a.node c).parent = some p ∧ (a.node c).kind = .endTag e.name
  endTag_down : ∀ c < a.size, (a.node c).isEndTag = true →
    ∃ p e, (a.node c).parent = some p ∧ (a.node p).kind = .element e ∧ e.endTag = some c
  selfClosing : ∀ p e, (a.node p).kind = .element e → e.selfClosing = true →
    e.children = [] ∧ e.endTag = none

variable {a : Arena} {topLevel : List NodeId}

/-- The tree at a node is part of those outside all elements. The induction is on the number of
the node, as its parent comes before it. -/
theorem Linked.numbers_sublist (h : a.Linked topLevel) {id : NodeId} (hid : id < a.size)
    (hend : (a.node id).isEndTag = false) :
    (a.tree id).numbers.Sublist (a.numbers topLevel) := by
  have hlevel := h.down id hid hend
  cases hparent : (a.node id).parent with
  | none =>
      rw [hparent] at hlevel
      exact numbers_tree_sublist hlevel
  | some p =>
      rw [hparent] at hlevel
      have hp := (a.children_bounds hlevel).1
      have hpEnd : (a.node p).isEndTag = false := Node.isEndTag_of_children hlevel
      have hsub := (numbers_tree_sublist hlevel).trans (a.numbers_children_sublist p)
      exact hsub.trans (h.numbers_sublist (Nat.lt_trans hp hid) hpEnd)

/-! ### Open elements -/

/-- The node is an element that may still get children and an end tag. -/
def IsOpen (a : Arena) (id : NodeId) : Prop :=
  ∃ e, (a.node id).kind = .element e ∧ e.endTag = none ∧ e.selfClosing = false

/-- Elements, the innermost first, each of which is open and the last one among the nodes of the
next. -/
def Opens (a : Arena) (topLevel : List NodeId) : List NodeId → Prop
  | [] => True
  | u :: outer =>
      (a.level topLevel outer.head?).getLast? = some u ∧ a.IsOpen u ∧ a.Opens topLevel outer

theorem endTag?_of_isOpen {id : NodeId} (h : a.IsOpen id) : (a.node id).endTag? = none := by
  obtain ⟨e, hkind, hend, -⟩ := h
  rw [Node.endTag?, Node.element?, hkind]
  exact hend

theorem mem_level_of_opens {u : NodeId} {outer : List NodeId}
    (h : a.Opens topLevel (u :: outer)) : u ∈ a.level topLevel outer.head? :=
  List.mem_of_getLast? h.1

/-- An element comes after those around it. -/
theorem lt_of_opens {u : NodeId} {outer : List NodeId} (h : a.Opens topLevel (u :: outer)) :
    ∀ p ∈ outer, p < u := by
  induction outer generalizing u with
  | nil => simp
  | cons p outer ih =>
      have hpu : p < u := (a.children_bounds (mem_level_of_opens h)).1
      intro q hq
      rcases List.mem_cons.mp hq with rfl | hq
      · exact hpu
      · exact Nat.lt_trans (ih h.2.2 q hq) hpu

theorem Opens.outer {inner outer : List NodeId} (h : a.Opens topLevel (inner ++ outer)) :
    a.Opens topLevel outer := by
  induction inner with
  | nil => exact h
  | cons u inner ih => exact ih h.2.2

theorem isOpen_of_mem {unclosed : List NodeId} (h : a.Opens topLevel unclosed) :
    ∀ u ∈ unclosed, a.IsOpen u := by
  induction unclosed with
  | nil => simp
  | cons u outer ih =>
      intro v hv
      rcases List.mem_cons.mp hv with rfl | hv
      · exact h.2.1
      · exact ih h.2.2 v hv

/-- Elements stay open while their nodes and the nodes outside all elements stay. -/
theorem Opens.congr {b : Arena} {unclosed : List NodeId} (h : a.Opens topLevel unclosed)
    (hnode : ∀ u ∈ unclosed, b.node u = a.node u) : b.Opens topLevel unclosed := by
  induction unclosed with
  | nil => trivial
  | cons u outer ih =>
      obtain ⟨hlast, hopen, houter⟩ := h
      have hlevel : b.level topLevel outer.head? = a.level topLevel outer.head? := by
        cases outer with
        | nil => rfl
        | cons p outer =>
            have hp := hnode p (by simp)
            simp only [List.head?_cons, level, children, hp]
      refine ⟨by rw [hlevel]; exact hlast, ?_, ih houter fun v hv => ?_⟩
      · rw [IsOpen, hnode u List.mem_cons_self]
        exact hopen
      · exact hnode v (List.mem_cons_of_mem u hv)

/-- What the numbers of some nodes become if only the last of them changes. -/
theorem numbers_of_last {b : Arena} {ids : List NodeId} {u changed : NodeId}
    (hids : (a.numbers ids).Nodup) (hbounds : ∀ i ∈ a.numbers ids, i < a.size)
    (hlast : ids.getLast? = some u) (hchanged : changed ∈ (a.tree u).numbers)
    (hsame : ∀ i < a.size, i ≠ changed → b.node i = a.node i)
    (hu : (b.tree u).numbers = (a.tree u).numbers ++ [a.size]) :
    b.numbers ids = a.numbers ids ++ [a.size] := by
  obtain ⟨front, rfl⟩ := List.getLast?_eq_some_iff.mp hlast
  rw [numbers_append, numbers_singleton] at hids hbounds
  have hfront : b.numbers front = a.numbers front := by
    refine numbers_congr fun id hid => tree_congr_of_numbers fun i hi => ?_
    have hi := (numbers_tree_sublist hid).subset hi
    refine hsame i (hbounds i (List.mem_append_left _ hi)) ?_
    rintro rfl
    exact (List.nodup_append.mp hids).2.2 i hi i hchanged rfl
  rw [numbers_append, numbers_append, numbers_singleton, numbers_singleton, hfront, hu,
    List.append_assoc]

/-- If the tree at the innermost open element gets one more number at its end, so do the trees
outside all elements. The induction goes outward: at every element only the last child changes. -/
theorem numbers_of_opens {b : Arena} (hlinked : a.Linked topLevel)
    (hrange : a.numbers topLevel = List.range a.size) {changed : NodeId}
    (hsame : ∀ i < a.size, i ≠ changed → b.node i = a.node i)
    {u : NodeId} {outer : List NodeId} (hopens : a.Opens topLevel (u :: outer))
    (hchanged : changed ∈ (a.tree u).numbers)
    (hu : (b.tree u).numbers = (a.tree u).numbers ++ [a.size]) :
    b.numbers topLevel = List.range (a.size + 1) := by
  induction outer generalizing u with
  | nil =>
      have hnodup : (a.numbers topLevel).Nodup := hrange ▸ List.nodup_range
      have hbounds : ∀ i ∈ a.numbers topLevel, i < a.size := by simp [hrange]
      rw [numbers_of_last hnodup hbounds hopens.1 hchanged hsame hu, hrange, List.range_succ]
  | cons p outer ih =>
      have hmem : u ∈ a.children p := mem_level_of_opens hopens
      have hp : p < a.size :=
        Nat.lt_trans (a.children_bounds hmem).1 (a.children_bounds hmem).2
      have hsub := hlinked.numbers_sublist hp (Node.isEndTag_of_children hmem)
      rw [hrange] at hsub
      have hnodup := hsub.nodup List.nodup_range
      have hchildren := a.numbers_children_sublist p
      have hbelow := ((numbers_tree_sublist hmem).trans hchildren).subset hchanged
      have hbounds : ∀ i ∈ a.numbers (a.children p), i < a.size := fun i hi =>
        List.mem_range.mp (hsub.subset (hchildren.subset hi))
      have hne : p ≠ changed := by
        rintro rfl
        rw [numbers_tree, List.nodup_cons] at hnodup
        have hin := (numbers_tree_sublist hmem).subset hchanged
        exact hnodup.1 (List.mem_append_left _ hin)
      have hnode := hsame p hp hne
      have hlast := numbers_of_last (hchildren.nodup hnodup) hbounds hopens.1 hchanged hsame hu
      refine ih hopens.2.2 hbelow ?_
      rw [numbers_tree, numbers_tree, children, hnode, endTag?_of_isOpen hopens.2.2.2.1,
        ← children, hlast]
      simp

end Arena

end PatternMarkup
