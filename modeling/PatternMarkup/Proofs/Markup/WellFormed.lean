import Mathlib.Data.List.Nodup
import PatternMarkup.Markup.Walk
import PatternMarkup.Proofs.Markup.TreeInvariant
/-!
Documents are well-formed. Whatever the source is, its nodes form a tree in source order: every
node has one place, walks and lists of descendants come by the nodes by number and by offset, end
tags belong to elements, and what nodes cover is nested and does not overlap.
-/

namespace PatternMarkup

theorem Node.element_of_endTag? {n : Node} {c : NodeId} (h : n.endTag? = some c) :
    ∃ e, n.kind = .element e ∧ e.endTag = some c := by
  obtain ⟨kind, span, parent, origin⟩ := n
  cases kind with
  | element e => exact ⟨e, rfl, h⟩
  | _ => cases h

namespace Span

theorem offset_join {s t : Span} (h : s.stop ≤ t.offset) : (s.join t).offset = s.offset := by
  rw [join, if_pos (Nat.le_trans (Nat.le_add_right _ _) h)]

theorem stop_join {s t : Span} (h : s.stop ≤ t.offset) : (s.join t).stop = t.stop := by
  have hs : s.offset ≤ s.stop := Nat.le_add_right _ _
  have ht : t.offset ≤ t.stop := Nat.le_add_right _ _
  have hst : s.stop ≤ t.stop := Nat.le_trans h ht
  rw [join, if_pos (Nat.le_trans hs h), stop, Nat.max_eq_right hst]
  exact Nat.add_sub_of_le (Nat.le_trans hs hst)

end Span

namespace Tree

theorem visitsOfAll_eq (enters : NodeId → Element → Bool) (trees : List Tree) :
    visitsOfAll enters trees = trees.flatMap (visits enters) := by
  induction trees with
  | nil => rfl
  | cons tree rest ih => rw [visitsOfAll, List.flatMap_cons, ih]

theorem extentOfLast_eq (a : Arena) (trees : List Tree) :
    extentOfLast a trees = trees.getLast?.map (extent a) := by
  induction trees with
  | nil => rfl
  | cons tree rest ih =>
      cases rest with
      | nil => rfl
      | cons next rest =>
          rw [extentOfLast, ih, List.getLast?_cons_cons]
          exact List.cons_ne_nil next rest

end Tree

namespace Arena

variable {a : Arena} {topLevel : List NodeId}

/-! ### Descendants and walks -/

theorem descendants_eq (a : Arena) (id : NodeId) :
    a.descendants id = id :: (a.children id).flatMap a.descendants := by
  rw [descendants, tree_eq, Tree.ids, Tree.idsOfAll_eq, List.flatMap_map]
  rfl

/-- The descendants of a node are the numbers of its tree that are no end tags. -/
theorem Linked.descendants (h : a.Linked topLevel) {id : NodeId}
    (hend : (a.node id).isEndTag = false) :
    a.descendants id = (a.tree id).numbers.filter fun i => !(a.node i).isEndTag := by
  have hchildren : (a.children id).flatMap a.descendants
      = (a.numbers (a.children id)).filter fun i => !(a.node i).isEndTag := by
    rw [numbers, List.filter_flatMap]
    refine List.flatMap_congr fun c hc => ?_
    have hbounds := a.children_bounds hc
    exact h.descendants (h.up (some id) c hc).2.2
  have hendTag : ((a.node id).endTag?.toList).filter (fun i => !(a.node i).isEndTag) = [] := by
    cases hid : (a.node id).endTag? with
    | none => rfl
    | some c =>
        obtain ⟨e, hkind, hc⟩ := Node.element_of_endTag? hid
        have hcEnd := (h.endTag_up id e c hkind hc).2.2
        simp [Node.isEndTag, hcEnd]
  rw [descendants_eq, numbers_tree, List.filter_cons, hend, List.filter_append, hchildren, hendTag,
    List.append_nil]
  rfl
termination_by a.size - id
decreasing_by
  omega

/-- What a walk does at a node: it comes by the node and, at an element, by the attributes. -/
def visitsAt (a : Arena) (id : NodeId) : List Visit :=
  match (a.node id).kind with
  | .element e => .element id e :: e.attributes.map (.attr id)
  | .text content blank => [.text id content blank]
  | .comment content => [.comment id content]
  | .endTag _ => []

/-- A walk that enters every element comes by a node and its descendants in their order. -/
theorem visits_tree (a : Arena) (id : NodeId) :
    (a.tree id).visits (fun _ _ => true) = (a.descendants id).flatMap a.visitsAt := by
  have hbelow : (a.children id).flatMap (fun c => (a.tree c).visits fun _ _ => true)
      = ((a.children id).flatMap a.descendants).flatMap a.visitsAt := by
    rw [List.flatMap_assoc]
    refine List.flatMap_congr fun c hc => ?_
    have hbounds := a.children_bounds hc
    exact a.visits_tree c
  rw [descendants_eq, List.flatMap_cons, ← hbelow, tree_eq, Tree.visits, Tree.visitsOfAll_eq,
    List.flatMap_map, visitsAt, children, Node.children]
  cases (a.node id).kind with
  | element e => rfl
  | _ => rfl
termination_by a.size - id
decreasing_by
  omega

/-! ### Extents -/

theorem extent_of_endTag {id c : NodeId} (h : (a.node id).endTag? = some c) :
    a.extent id = (a.node id).span.join (a.node c).span := by
  rw [extent, tree_eq, Tree.extent, ← Node.endTag?, h]

theorem extent_of_no_endTag {id : NodeId} (h : (a.node id).endTag? = none) :
    a.extent id = match (a.children id).getLast? with
      | some c => (a.node id).span.join (a.extent c)
      | none => (a.node id).span := by
  rw [extent, tree_eq, Tree.extent, ← Node.endTag?, h, Tree.extentOfLast_eq, List.getLast?_map]
  cases (a.children id).getLast? <;> rfl

/-! ### Places in the source -/

section

variable {limit : Nat} (hlinked : a.Linked topLevel)
  (hrange : a.numbers topLevel = List.range a.size) (horder : a.InOrder limit)

include hlinked hrange

theorem numbers_level_sublist (parent : Option NodeId) :
    (a.numbers (a.level topLevel parent)).Sublist (List.range a.size) := by
  cases parent with
  | none => exact hrange ▸ List.Sublist.refl _
  | some p =>
      cases hchildren : a.children p with
      | nil =>
          rw [level, hchildren]
          exact List.nil_sublist _
      | cons c rest =>
          have hc : c ∈ a.children p := hchildren ▸ List.mem_cons_self
          have hbounds := a.children_bounds hc
          have hp := Nat.lt_trans hbounds.1 hbounds.2
          have hsub := hlinked.numbers_sublist hp (Node.isEndTag_of_children hc)
          rw [hrange] at hsub
          exact (a.numbers_children_sublist p).trans hsub

theorem numbers_tree_range {id : NodeId} (hid : id < a.size)
    (hend : (a.node id).isEndTag = false) :
    (a.tree id).numbers.Pairwise (· < ·) ∧ ∀ i ∈ (a.tree id).numbers, i < a.size := by
  have hsub := hlinked.numbers_sublist hid hend
  rw [hrange] at hsub
  exact ⟨List.pairwise_lt_range.sublist hsub, fun i hi => List.mem_range.mp (hsub.subset hi)⟩

include horder

/-- What a node covers reaches from its own start to the end of the last node of its tree. -/
theorem extent_bounds {id : NodeId} (hid : id < a.size) (hend : (a.node id).isEndTag = false) :
    (a.extent id).offset = (a.node id).span.offset ∧
      ∃ last, (a.tree id).numbers.getLast? = some last ∧
        (a.extent id).stop = (a.node last).span.stop := by
  obtain ⟨hlt, hsize⟩ := numbers_tree_range hlinked hrange hid hend
  rw [numbers_tree] at hlt hsize ⊢
  have hafter := (List.pairwise_cons.mp hlt).1
  cases hc : (a.node id).endTag? with
  | some c =>
      rw [hc] at hafter hsize
      have hmem : c ∈ a.numbers (a.children id) ++ (some c).toList := by simp
      have hstop := horder.stop_le_offset id c (hafter c hmem) (hsize c (List.mem_cons_of_mem _ hmem))
      rw [extent_of_endTag hc]
      refine ⟨Span.offset_join hstop, c, ?_, Span.stop_join hstop⟩
      rw [Option.toList_some, ← List.cons_append, List.getLast?_concat]
  | none =>
      rw [extent_of_no_endTag hc, Option.toList_none, List.append_nil]
      cases hlast : (a.children id).getLast? with
      | none =>
          rw [List.getLast?_eq_none_iff.mp hlast]
          exact ⟨rfl, id, rfl, rfl⟩
      | some c =>
          have hmem : c ∈ a.children id := List.mem_of_getLast? hlast
          have hbounds := a.children_bounds hmem
          obtain ⟨hoffset, last, hlast', hstop⟩ :=
            extent_bounds hbounds.2 (hlinked.up (some id) c hmem).2.2
          have hle : (a.node id).span.stop ≤ (a.extent c).offset := by
            rw [hoffset]
            exact horder.stop_le_offset id c hbounds.1 hbounds.2
          refine ⟨Span.offset_join hle, last, ?_, (Span.stop_join hle).trans hstop⟩
          obtain ⟨front, hfront⟩ := List.getLast?_eq_some_iff.mp hlast
          rw [hfront, numbers_append, numbers_singleton, ← List.cons_append,
            List.getLast?_append, hlast', Option.some_or]
termination_by a.size - id
decreasing_by
  omega

/-- What a child covers lies inside what its parent covers. -/
theorem extent_within {p c : NodeId} (hc : c ∈ a.children p) :
    (a.extent p).offset ≤ (a.extent c).offset ∧ (a.extent c).stop ≤ (a.extent p).stop := by
  have hbounds := a.children_bounds hc
  have hp := Nat.lt_trans hbounds.1 hbounds.2
  have hpEnd : (a.node p).isEndTag = false := Node.isEndTag_of_children hc
  have hcEnd := (hlinked.up (some p) c hc).2.2
  obtain ⟨hlt, hsize⟩ := numbers_tree_range hlinked hrange hp hpEnd
  obtain ⟨hoffset, last, hlast, hstop⟩ := extent_bounds hlinked hrange horder hp hpEnd
  obtain ⟨hoffset', last', hlast', hstop'⟩ := extent_bounds hlinked hrange horder hbounds.2 hcEnd
  have hmem := ((numbers_tree_sublist hc).trans (a.numbers_children_sublist p)).subset
    (List.mem_of_getLast? hlast')
  have hle : last' ≤ last := by
    obtain ⟨front, hfront⟩ := List.getLast?_eq_some_iff.mp hlast
    rw [hfront] at hlt hmem
    rcases List.mem_append.mp hmem with hmem | hmem
    · exact Nat.le_of_lt ((List.pairwise_append.mp hlt).2.2 last' hmem last (by simp))
    · exact Nat.le_of_eq (List.mem_singleton.mp hmem)
  rw [hoffset, hoffset', hstop, hstop']
  refine ⟨?_, ?_⟩
  · exact Nat.le_trans (Nat.le_add_right _ _) (horder.stop_le_offset p c hbounds.1 hbounds.2)
  · rcases Nat.lt_or_eq_of_le hle with hlt' | rfl
    · have hlastSize := hsize last (List.mem_of_getLast? hlast)
      exact Nat.le_trans (horder.stop_le_offset last' last hlt' hlastSize) (Nat.le_add_right _ _)
    · exact Nat.le_refl _

/-- What a node covers ends before what a later one with the same parent covers. -/
theorem extents_apart (parent : Option NodeId) :
    (a.level topLevel parent).Pairwise fun c d => (a.extent c).stop ≤ (a.extent d).offset := by
  have hlt := List.pairwise_lt_range.sublist (numbers_level_sublist hlinked hrange parent)
  rw [numbers, List.pairwise_flatMap] at hlt
  refine hlt.2.imp_of_mem fun {c d} hc hd hcd => ?_
  obtain ⟨hcSize, -, hcEnd⟩ := hlinked.up parent c hc
  obtain ⟨hdSize, -, hdEnd⟩ := hlinked.up parent d hd
  obtain ⟨-, last, hlast, hstop⟩ := extent_bounds hlinked hrange horder hcSize hcEnd
  obtain ⟨hoffset, -⟩ := extent_bounds hlinked hrange horder hdSize hdEnd
  rw [hstop, hoffset]
  have hbefore := hcd last (List.mem_of_getLast? hlast) d (a.mem_numbers_tree d)
  exact horder.stop_le_offset last d hbefore hdSize

end

end Arena

namespace Document

/-- The nodes of a document form a tree in source order. The walk is one that enters every
element. -/
structure WellFormed (doc : Document) : Prop where
  /-- A node stands once among the nodes of its parent and not among those of others. -/
  placed : ∀ id < doc.arena.size, (doc.arena.node id).isEndTag = false → ∀ parent,
    (doc.arena.level doc.topLevel parent).count id
      = if parent = (doc.arena.node id).parent then 1 else 0
  listed : doc.topLevel.flatMap doc.arena.descendants
    = (List.range doc.arena.size).filter fun id => !(doc.arena.node id).isEndTag
  ascending : (doc.topLevel.flatMap doc.arena.descendants).Pairwise fun i j =>
    i < j ∧ (doc.arena.node i).span.offset < (doc.arena.node j).span.offset
  walked : doc.visits (fun _ _ => true)
    = (doc.topLevel.flatMap doc.arena.descendants).flatMap doc.arena.visitsAt
  /-- An end tag belongs to one element, whose name it has and all of which it follows. -/
  closed : ∀ id < doc.arena.size, ∀ name, (doc.arena.node id).kind = .endTag name → ∃ p,
    (∃ e, (doc.arena.node p).kind = .element e ∧ e.endTag = some id ∧ e.name = name) ∧
    (∀ q e, (doc.arena.node q).kind = .element e → e.endTag = some id → q = p) ∧
    ∀ d ∈ doc.arena.descendants p,
      (doc.arena.node d).span.stop ≤ (doc.arena.node id).span.offset
  selfClosed : ∀ id e, (doc.arena.node id).kind = .element e → e.selfClosing = true →
    e.children = [] ∧ e.endTag = none
  nested : ∀ p, ∀ c ∈ doc.arena.children p,
    (doc.arena.extent p).offset ≤ (doc.arena.extent c).offset ∧
      (doc.arena.extent c).stop ≤ (doc.arena.extent p).stop
  apart : ∀ parent, (doc.arena.level doc.topLevel parent).Pairwise fun c d =>
    (doc.arena.extent c).stop ≤ (doc.arena.extent d).offset

end Document

namespace Arena

variable {a : Arena} {topLevel : List NodeId}

theorem Linked.count_level (h : a.Linked topLevel) {id : NodeId} (hid : id < a.size)
    (hend : (a.node id).isEndTag = false) (parent : Option NodeId) :
    (a.level topLevel parent).count id = if parent = (a.node id).parent then 1 else 0 := by
  by_cases hparent : parent = (a.node id).parent
  · have hnodup : (a.level topLevel parent).Nodup := (h.increasing parent).imp Nat.ne_of_lt
    rw [if_pos hparent]
    exact List.count_eq_one_of_mem hnodup (hparent ▸ h.down id hid hend)
  · rw [if_neg hparent]
    refine List.count_eq_zero_of_not_mem fun hmem => hparent ?_
    exact (h.up parent id hmem).2.1.symm

theorem Linked.flatMap_descendants (h : a.Linked topLevel) :
    topLevel.flatMap a.descendants = (a.numbers topLevel).filter fun i => !(a.node i).isEndTag := by
  rw [numbers, List.filter_flatMap]
  exact List.flatMap_congr fun id hid => h.descendants (h.up none id hid).2.2

theorem InOrder.offset_lt {limit : Nat} (h : a.InOrder limit) {i j : NodeId} (hij : i < j)
    (hj : j < a.size) : (a.node i).span.offset < (a.node j).span.offset := by
  have hi := h.length_pos i (Nat.lt_trans hij hj)
  exact Nat.lt_of_lt_of_le (Nat.lt_add_of_pos_right hi) (h.stop_le_offset i j hij hj)

/-- The element of an end tag ends before it. -/
theorem descendants_before {limit : Nat} (hlinked : a.Linked topLevel)
    (hrange : a.numbers topLevel = List.range a.size) (horder : a.InOrder limit) {p c : NodeId}
    {e : Element} (hkind : (a.node p).kind = .element e) (hc : e.endTag = some c) :
    ∀ d ∈ a.descendants p, (a.node d).span.stop ≤ (a.node c).span.offset := by
  have hpEnd : (a.node p).isEndTag = false := by rw [Node.isEndTag, hkind]
  obtain ⟨hcSize, -, hcKind⟩ := hlinked.endTag_up p e c hkind hc
  have hlt := (numbers_tree_range hlinked hrange (a.lt_size_of_element hkind) hpEnd).1
  have hendTag : (a.node p).endTag? = some c := by
    rw [Node.endTag?, Node.element?, hkind]
    exact hc
  intro d hd
  rw [hlinked.descendants hpEnd, List.mem_filter] at hd
  obtain ⟨hd, hdEnd⟩ := hd
  rw [numbers_tree, hendTag, Option.toList_some, ← List.cons_append] at hd hlt
  rcases List.mem_append.mp hd with hd | hd
  · have hdc := (List.pairwise_append.mp hlt).2.2 d hd c (by simp)
    exact horder.stop_le_offset d c hdc hcSize
  · rw [List.mem_singleton.mp hd, Node.isEndTag, hcKind] at hdEnd
    cases hdEnd

end Arena

namespace Document

theorem wellFormed_of_linked {doc : Document} {limit : Nat}
    (hlinked : doc.arena.Linked doc.topLevel)
    (hrange : doc.arena.numbers doc.topLevel = List.range doc.arena.size)
    (horder : doc.arena.InOrder limit) : doc.WellFormed := by
  have hlisted := hlinked.flatMap_descendants
  rw [hrange] at hlisted
  refine ⟨fun id hid hend => hlinked.count_level hid hend, hlisted, ?_, ?_, ?_,
    hlinked.selfClosing, fun p c hc => ?_, ?_⟩
  · rw [hlisted]
    refine (List.pairwise_lt_range.filter _).imp_of_mem fun {i j} _ hj hij => ⟨hij, ?_⟩
    exact horder.offset_lt hij (List.mem_range.mp (List.mem_filter.mp hj).1)
  · rw [visits, Tree.visitsOfAll_eq, List.flatMap_map, List.flatMap_assoc]
    exact List.flatMap_congr fun id _ => doc.arena.visits_tree id
  · intro c hc name hkind
    have hend : (doc.arena.node c).isEndTag = true := by rw [Node.isEndTag, hkind]
    obtain ⟨p, e, hparent, hpKind, hendTag⟩ := hlinked.endTag_down c hc hend
    have hname := (hlinked.endTag_up p e c hpKind hendTag).2.2
    rw [hkind] at hname
    refine ⟨p, ⟨e, hpKind, hendTag, (NodeKind.endTag.inj hname).symm⟩, fun q e' hq hqEnd => ?_,
      Arena.descendants_before hlinked hrange horder hpKind hendTag⟩
    have hqParent := (hlinked.endTag_up q e' c hq hqEnd).2.1
    exact Option.some.inj (hqParent.symm.trans hparent)
  · exact Arena.extent_within hlinked hrange horder hc
  · exact Arena.extents_apart hlinked hrange horder

/-- The document of any source, with comments or without, is well-formed. -/
theorem wellFormed_ofSource (source : String) (keepComments : Bool) :
    (ofSource source keepComments).WellFormed := by
  obtain ⟨hlinked, -, hrange, horder⟩ :=
    TreeBuilder.sound_ofTokens keepComments (TokenStream.tiles_ofSource source)
  exact wellFormed_of_linked hlinked hrange horder

end Document

end PatternMarkup
