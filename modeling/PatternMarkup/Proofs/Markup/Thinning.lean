import Mathlib.Data.Nat.Count
import PatternMarkup.Proofs.Markup.Copies
import PatternMarkup.Proofs.Markup.Coverage
/-!
Arenas from which nodes are left out. Those that are kept stay in their order and are numbered
anew, each by how many kept ones come before it; the links between them follow the new numbers.
-/

namespace PatternMarkup

/-- How many of the numbers before `id` are kept. -/
def rank (keep : NodeId → Bool) (id : NodeId) : NodeId := Nat.count (fun i => keep i) id

section

variable {keep : NodeId → Bool} {i j : NodeId}

theorem rank_succ (h : keep i = true) : rank keep (i + 1) = rank keep i + 1 := by
  rw [rank, Nat.count_succ, if_pos h, rank]

theorem rank_succ_of_not (h : keep i = false) : rank keep (i + 1) = rank keep i := by
  rw [rank, Nat.count_succ, if_neg (by simp [h]), rank, Nat.add_zero]

theorem rank_lt_rank (h : keep i = true) (hij : i < j) : rank keep i < rank keep j :=
  Nat.count_strict_mono h hij

theorem rank_inj (hi : keep i = true) (hj : keep j = true) (h : rank keep i = rank keep j) :
    i = j :=
  Nat.count_injective hi hj h

/-- The kept numbers are numbered anew without gaps. -/
theorem map_rank_range (n : Nat) :
    ((List.range n).filter keep).map (rank keep) = List.range (rank keep n) := by
  induction n with
  | zero => rfl
  | succ n ih =>
      rw [List.range_succ, List.filter_append, List.map_append, ih]
      cases hn : keep n with
      | true =>
          rw [rank_succ hn, List.range_succ, List.filter_cons_of_pos hn]
          rfl
      | false =>
          rw [rank_succ_of_not hn, List.filter_cons_of_neg (by simp [hn])]
          exact List.append_nil _

end

/-- Whether it is a comment. -/
def NodeKind.isComment : NodeKind → Bool
  | .comment _ => true
  | _ => false

namespace Node

/-- Whether a node is a comment. -/
def isComment (n : Node) : Bool := n.kind.isComment

theorem isComment_mapElement (n : Node) (f : Element → Element) :
    (n.mapElement f).isComment = n.isComment := by
  obtain ⟨kind, span, parent, origin⟩ := n
  cases kind <;> rfl

/-- The node where only some nodes are kept, which have new numbers. -/
def thinned (keep : NodeId → Bool) (number : NodeId → NodeId) (n : Node) : Node :=
  { n.mapElement (fun e => { e with
      attributes := e.attributes.map fun a => { a with owner := number a.owner }
      children := (e.children.filter keep).map number
      endTag := e.endTag.map number }) with
    parent := n.parent.map number }

variable {keep : NodeId → Bool} {number : NodeId → NodeId}

theorem thinned_withoutChildren (n : Node) :
    n.withoutChildren.thinned keep number = (n.thinned keep number).withoutChildren := by
  obtain ⟨kind, span, parent, origin⟩ := n
  cases kind <;> rfl

theorem thinned_addChild (n : Node) {child : NodeId} (h : keep child = true) :
    (n.mapElement fun e => { e with children := e.children ++ [child] }).thinned keep number
      = (n.thinned keep number).mapElement fun e =>
          { e with children := e.children ++ [number child] } := by
  obtain ⟨kind, span, parent, origin⟩ := n
  cases kind <;> simp [thinned, mapElement, h]

theorem thinned_addChild_omitted (n : Node) {child : NodeId} (h : keep child = false) :
    (n.mapElement fun e => { e with children := e.children ++ [child] }).thinned keep number
      = n.thinned keep number := by
  obtain ⟨kind, span, parent, origin⟩ := n
  cases kind <;> simp [thinned, mapElement, h]

theorem thinned_close (n : Node) (c : NodeId) :
    (n.mapElement fun e => { e with endTag := some c }).thinned keep number
      = (n.thinned keep number).mapElement fun e => { e with endTag := some (number c) } := by
  obtain ⟨kind, span, parent, origin⟩ := n
  cases kind <;> rfl

end Node

namespace Arena

variable {keep : NodeId → Bool} {a b : Arena}

/-- The arena `b` has the nodes of `a` that are kept, numbered anew. -/
structure Thins (keep : NodeId → Bool) (a b : Arena) : Prop where
  size : b.size = rank keep a.size
  nodes : ∀ i < a.size, keep i = true →
    b.node (rank keep i) = (a.node i).thinned keep (rank keep)

theorem thins_empty (keep : NodeId → Bool) : Thins keep .empty .empty :=
  ⟨rfl, fun i hi => absurd hi (Nat.not_lt_zero i)⟩

theorem Thins.rank_lt (h : Thins keep a b) {i : NodeId} (hi : i < a.size)
    (hkeep : keep i = true) : rank keep i < b.size := by
  rw [h.size]
  exact rank_lt_rank hkeep hi

theorem Thins.add (h : Thins keep a b) (hkeep : keep a.size = true) (n : Node) :
    Thins keep (a.add n) (b.add (n.thinned keep (rank keep))) := by
  constructor
  · rw [size_add, size_add, rank_succ hkeep, h.size]
  · intro i hi hi'
    rw [size_add] at hi
    rcases Nat.lt_or_eq_of_le (Nat.le_of_lt_succ hi) with hlt | rfl
    · rw [node_add_of_lt a n hlt, node_add_of_lt b _ (h.rank_lt hlt hi'), h.nodes i hlt hi']
    · rw [node_add_size, ← h.size, node_add_size, Node.thinned_withoutChildren]

theorem Thins.addOmitted (h : Thins keep a b) (hkeep : keep a.size = false) (n : Node) :
    Thins keep (a.add n) b := by
  constructor
  · rw [size_add, rank_succ_of_not hkeep, h.size]
  · intro i hi hi'
    rw [size_add] at hi
    rcases Nat.lt_or_eq_of_le (Nat.le_of_lt_succ hi) with hlt | rfl
    · rw [node_add_of_lt a n hlt, h.nodes i hlt hi']
    · rw [hkeep] at hi'
      cases hi'

theorem Thins.addChild (h : Thins keep a b) {parent child : NodeId} (hlt : parent < child)
    (hchild : child < a.size) (hparent : keep parent = true) (hkeep : keep child = true) :
    Thins keep (a.addChild parent child) (b.addChild (rank keep parent) (rank keep child)) := by
  constructor
  · rw [size_addChild, size_addChild, h.size]
  · intro i hi hi'
    rw [size_addChild] at hi
    by_cases hip : i = parent
    · subst hip
      rw [node_addChild_self a hlt hchild, Node.thinned_addChild _ hkeep,
        node_addChild_self b (rank_lt_rank hparent hlt) (h.rank_lt hchild hkeep),
        h.nodes i hi hi']
    · have hne : rank keep i ≠ rank keep parent := fun heq => hip (rank_inj hi' hparent heq)
      rw [node_addChild_of_ne a child hip, node_addChild_of_ne b _ hne, h.nodes i hi hi']

theorem Thins.addOmittedChild (h : Thins keep a b) {parent child : NodeId} (hlt : parent < child)
    (hchild : child < a.size) (hkeep : keep child = false) :
    Thins keep (a.addChild parent child) b := by
  constructor
  · rw [size_addChild, h.size]
  · intro i hi hi'
    rw [size_addChild] at hi
    by_cases hip : i = parent
    · subst hip
      rw [node_addChild_self a hlt hchild, Node.thinned_addChild_omitted _ hkeep, h.nodes i hi hi']
    · rw [node_addChild_of_ne a child hip, h.nodes i hi hi']

theorem Thins.addBelow (h : Thins keep a b) {parent : NodeId} (hlt : parent < a.size)
    (hparent : keep parent = true) (hkeep : keep a.size = true) (n : Node) :
    Thins keep (a.addBelow parent n)
      (b.addBelow (rank keep parent) (n.thinned keep (rank keep))) := by
  rw [Arena.addBelow, Arena.addBelow, h.size]
  exact (h.add hkeep n).addChild hlt (lt_size_add a n) hparent hkeep

theorem Thins.addOmittedBelow (h : Thins keep a b) {parent : NodeId} (hlt : parent < a.size)
    (hkeep : keep a.size = false) (n : Node) : Thins keep (a.addBelow parent n) b :=
  (h.addOmitted hkeep n).addOmittedChild hlt (lt_size_add a n) hkeep

theorem Thins.close (h : Thins keep a b) {id : NodeId} (hid : keep id = true)
    (hkeep : keep a.size = true) (n : Node) :
    Thins keep (a.close id n) (b.close (rank keep id) (n.thinned keep (rank keep))) := by
  have hadd := h.add hkeep n
  constructor
  · rw [size_close, size_close, ← size_add a n, ← hadd.size, size_add]
  · intro i hi hi'
    rw [size_close, ← size_add a n] at hi
    by_cases hip : i = id
    · subst hip
      rw [Arena.close, Arena.close, node_updateElement_self, node_updateElement_self,
        Node.thinned_close, ← hadd.nodes i hi hi', ← h.size]
    · have hne : rank keep i ≠ rank keep id := fun heq => hip (rank_inj hi' hid heq)
      rw [Arena.close, Arena.close, node_updateElement_of_ne _ _ _ hip,
        node_updateElement_of_ne _ _ _ hne, hadd.nodes i hi hi']

/-! ### What is left out -/

/-- The places of the nodes that are left out, in their order. -/
def omittedSpans (keep : NodeId → Bool) (a : Arena) : List Span :=
  ((List.range a.size).filter fun i => !keep i).map fun i => (a.node i).span

/-- One more node adds its place if it is left out. -/
theorem omittedSpans_succ (hsize : b.size = a.size + 1)
    (hspan : ∀ i < a.size, (b.node i).span = (a.node i).span) :
    omittedSpans keep b
      = omittedSpans keep a ++ if keep a.size then [] else [(b.node a.size).span] := by
  have hold : ∀ i ∈ (List.range a.size).filter fun i => !keep i,
      (b.node i).span = (a.node i).span := by
    intro i hi
    exact hspan i (List.mem_range.mp (List.mem_filter.mp hi).1)
  rw [omittedSpans, hsize, List.range_succ, List.filter_append, List.map_append,
    List.map_congr_left hold, omittedSpans]
  cases hkeep : keep a.size with
  | true => simp [hkeep]
  | false => simp [hkeep]

/-! ### Comments -/

/-- The nodes of `a` stay where they are in `b`, and those that are comments stay comments. -/
structure Continues (a b : Arena) : Prop where
  size_le : a.size ≤ b.size
  span : ∀ i < a.size, (b.node i).span = (a.node i).span
  isComment : ∀ i < a.size, (b.node i).isComment = (a.node i).isComment

theorem Continues.refl (a : Arena) : a.Continues a :=
  ⟨Nat.le_refl _, fun _ _ => rfl, fun _ _ => rfl⟩

theorem Continues.trans {c : Arena} (h : a.Continues b) (h' : b.Continues c) : a.Continues c := by
  refine ⟨Nat.le_trans h.size_le h'.size_le, fun i hi => ?_, fun i hi => ?_⟩
  · rw [h'.span i (Nat.lt_of_lt_of_le hi h.size_le), h.span i hi]
  · rw [h'.isComment i (Nat.lt_of_lt_of_le hi h.size_le), h.isComment i hi]

theorem continues_add (a : Arena) (n : Node) : a.Continues (a.add n) := by
  refine ⟨by rw [size_add]; exact Nat.le_succ _, fun i hi => ?_, fun i hi => ?_⟩
  · rw [node_add_of_lt a n hi]
  · rw [node_add_of_lt a n hi]

theorem span_addChild (a : Arena) (parent child i : NodeId) :
    ((a.addChild parent child).node i).span = (a.node i).span := by
  rcases a.node_addChild_or parent child i with heq | heq
  · rw [heq]
  · rw [heq, span_mapElement]

theorem isComment_addChild (a : Arena) (parent child i : NodeId) :
    ((a.addChild parent child).node i).isComment = (a.node i).isComment := by
  rcases a.node_addChild_or parent child i with heq | heq
  · rw [heq]
  · rw [heq, Node.isComment_mapElement]

theorem continues_addChild (a : Arena) (parent child : NodeId) :
    a.Continues (a.addChild parent child) :=
  ⟨Nat.le_of_eq (size_addChild a parent child).symm, fun i _ => span_addChild a parent child i,
    fun i _ => isComment_addChild a parent child i⟩

theorem continues_updateElement (a : Arena) (id : NodeId) (f : Element → Element)
    (hf : ∀ e, (f e).children = e.children) : a.Continues (a.updateElement id f hf) := by
  have hnode : ∀ i, (a.updateElement id f hf).node i = a.node i ∨
      (a.updateElement id f hf).node i = (a.node i).mapElement f := by
    intro i
    by_cases hi : i = id
    · subst hi
      exact .inr (node_updateElement_self a i f hf)
    · exact .inl (node_updateElement_of_ne a f hf hi)
  refine ⟨Nat.le_of_eq (size_updateElement a id f hf).symm, fun i _ => ?_, fun i _ => ?_⟩
  · rcases hnode i with heq | heq
    · rw [heq]
    · rw [heq, span_mapElement]
  · rcases hnode i with heq | heq
    · rw [heq]
    · rw [heq, Node.isComment_mapElement]

theorem continues_close (a : Arena) (id : NodeId) (n : Node) : a.Continues (a.close id n) :=
  (continues_add a n).trans (continues_updateElement _ _ _ _)

theorem isComment_close (a : Arena) (id : NodeId) (n : Node) :
    ((a.close id n).node a.size).isComment = n.isComment := by
  rw [close, (continues_updateElement _ _ _ _).isComment a.size (lt_size_add a n), node_add_size,
    Node.withoutChildren, Node.isComment_mapElement]

end Arena

end PatternMarkup
