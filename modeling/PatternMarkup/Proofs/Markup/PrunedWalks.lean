import Mathlib.Data.List.Flatten
import Mathlib.Data.List.Pairwise
import PatternMarkup.Proofs.Markup.DeepCopies
/-!
Walks that pass by what lies in some elements. Such a walk comes by what lies in nothing but
entered elements, in source order, and copies made in the document do not change it.
-/

namespace PatternMarkup

namespace Visit

/-- Whether the visit is one of an attribute. -/
def isAttr : Visit → Bool
  | attr _ _ => true
  | _ => false

/-- The place of what a walk comes by: of an attribute the place of its name. -/
def place (arena : Arena) : Visit → Span
  | attr _ a => a.nameSpan
  | v => (arena.node v.node).span

end Visit

namespace Arena

variable {a : Arena}

/-- What a walk comes by at a node. -/
theorem mem_visitsAt {id : NodeId} {v : Visit} : v ∈ a.visitsAt id ↔
    (∃ e, (a.node id).kind = .element e ∧
      (v = .element id e ∨ ∃ x ∈ e.attributes, v = .attr id x)) ∨
    (∃ content blank, (a.node id).kind = .text content blank ∧ v = .text id content blank) ∨
    ∃ content, (a.node id).kind = .comment content ∧ v = .comment id content := by
  rw [visitsAt]
  cases (a.node id).kind <;> simp [eq_comm, -Bool.exists_bool]

theorem node_of_mem_visitsAt {id : NodeId} {v : Visit} (h : v ∈ a.visitsAt id) : v.node = id := by
  rcases mem_visitsAt.mp h with ⟨e, -, rfl | ⟨x, -, rfl⟩⟩ | ⟨content, blank, -, rfl⟩ |
    ⟨content, -, rfl⟩ <;> rfl

theorem le_of_mem_descendants {p d : NodeId} (h : d ∈ a.descendants p) : p ≤ d := by
  rw [descendants_eq] at h
  rcases List.mem_cons.mp h with rfl | h
  · exact Nat.le_refl _
  · obtain ⟨c, hc, h⟩ := List.mem_flatMap.mp h
    have hbounds := a.children_bounds hc
    exact Nat.le_trans (Nat.le_of_lt hbounds.1) (le_of_mem_descendants h)
termination_by a.size - p
decreasing_by omega

/-- Whether a walk has to enter a node to come by something: the node lies around it, or is the
element of which it is an attribute. -/
def Encloses (a : Arena) (p : NodeId) (v : Visit) : Prop :=
  v.node ∈ a.descendants p ∧ (p = v.node → v.isAttr = true)

/-- Whether something is at one of the nodes, and all of these that enclose it are entered. -/
structure IsReached (a : Arena) (enters : NodeId → Bool) (ids : List NodeId) (v : Visit) :
    Prop where
  mem : v ∈ ids.flatMap a.visitsAt
  entered : ∀ p ∈ ids, a.Encloses p v → enters p = true

/-- A walk comes by a node, and by what else there is if it enters the node. -/
theorem mem_visits_tree (enters : NodeId → Bool) (id : NodeId) (v : Visit) :
    v ∈ (a.tree id).visits (fun id _ => enters id) ↔
      (v ∈ a.visitsAt id ∧ (v.isAttr = true → enters id = true)) ∨
        enters id = true ∧
          v ∈ (a.children id).flatMap fun c => (a.tree c).visits fun id _ => enters id := by
  rw [tree_eq, Tree.visits, Tree.visitsOfAll_eq, List.flatMap_map, visitsAt, children,
    Node.children]
  cases (a.node id).kind with
  | element e =>
      by_cases henters : enters id = true
      · simp [henters, or_assoc]
      · simp only [henters, Bool.false_eq_true, if_false, false_and, or_false, imp_false,
          List.mem_cons, List.not_mem_nil, List.mem_map]
        constructor
        · rintro rfl
          exact ⟨.inl rfl, fun hattr => absurd hattr Bool.false_ne_true⟩
        · rintro ⟨rfl | ⟨x, -, rfl⟩, hattr⟩
          · rfl
          · exact absurd rfl hattr
  | text content blank =>
      simp only [List.mem_singleton, List.flatMap_nil, List.not_mem_nil, and_false, or_false]
      refine ⟨fun h => ⟨h, fun hattr => ?_⟩, And.left⟩
      rw [h] at hattr
      cases hattr
  | comment content =>
      simp only [List.mem_singleton, List.flatMap_nil, List.not_mem_nil, and_false, or_false]
      refine ⟨fun h => ⟨h, fun hattr => ?_⟩, And.left⟩
      rw [h] at hattr
      cases hattr
  | endTag name => simp

/-- Of nodes below which no node lies twice, one alone has a given node below it. -/
theorem eq_of_mem_descendants {ids : List NodeId} (hdistinct : (ids.flatMap a.descendants).Nodup)
    {c c' d : NodeId} (hc : c ∈ ids) (hc' : c' ∈ ids) (hd : d ∈ a.descendants c)
    (hd' : d ∈ a.descendants c') : c = c' := by
  have hdisjoint := (List.nodup_flatMap.mp hdistinct).2
  have : Std.Symm (Function.onFun List.Disjoint a.descendants) := ⟨fun _ _ h _ hx hy => h hy hx⟩
  by_contra hne
  exact hdisjoint.forall hc hc' hne hd hd'

/-- The walks from several nodes, where no node lies below two of them. -/
theorem mem_flatMap_visits {enters : NodeId → Bool} {ids : List NodeId}
    (hdistinct : (ids.flatMap a.descendants).Nodup)
    (hvisits : ∀ c ∈ ids, ∀ v, v ∈ (a.tree c).visits (fun id _ => enters id) ↔
      a.IsReached enters (a.descendants c) v) (v : Visit) :
    (v ∈ ids.flatMap fun c => (a.tree c).visits fun id _ => enters id) ↔
      a.IsReached enters (ids.flatMap a.descendants) v := by
  rw [List.mem_flatMap]
  constructor
  · rintro ⟨c, hc, hv⟩
    obtain ⟨hmem, hentered⟩ := (hvisits c hc v).mp hv
    obtain ⟨d, hd, hvd⟩ := List.mem_flatMap.mp hmem
    refine ⟨List.mem_flatMap.mpr ⟨d, List.mem_flatMap.mpr ⟨c, hc, hd⟩, hvd⟩, fun p hp henc => ?_⟩
    obtain ⟨c', hc', hp⟩ := List.mem_flatMap.mp hp
    have hdc' : d ∈ a.descendants c' := by
      rw [← node_of_mem_visitsAt hvd]
      exact descendants_subset hp henc.1
    obtain rfl := eq_of_mem_descendants hdistinct hc hc' hd hdc'
    exact hentered p hp henc
  · rintro ⟨hmem, hentered⟩
    obtain ⟨d, hd, hvd⟩ := List.mem_flatMap.mp hmem
    obtain ⟨c, hc, hdc⟩ := List.mem_flatMap.mp hd
    refine ⟨c, hc, (hvisits c hc v).mpr ⟨List.mem_flatMap.mpr ⟨d, hdc, hvd⟩, fun p hp henc => ?_⟩⟩
    exact hentered p (List.mem_flatMap.mpr ⟨c, hc, hp⟩) henc

/-- A walk from a node comes by what all that encloses it lets it come by. -/
theorem Tidy.mem_visits (h : a.Tidy) (enters : NodeId → Bool) (id : NodeId) (v : Visit) :
    v ∈ (a.tree id).visits (fun id _ => enters id) ↔
      a.IsReached enters (a.descendants id) v := by
  have hdistinct := h.distinct id
  rw [descendants_eq, List.nodup_cons] at hdistinct
  have hvisits : ∀ c ∈ a.children id, ∀ v, v ∈ (a.tree c).visits (fun id _ => enters id) ↔
      a.IsReached enters (a.descendants c) v := fun c hc v => by
    have hbounds := a.children_bounds hc
    exact h.mem_visits enters c v
  rw [mem_visits_tree, mem_flatMap_visits hdistinct.2 hvisits]
  have hlt : ∀ d ∈ (a.children id).flatMap a.descendants, id < d := by
    intro d hd
    obtain ⟨c, hc, hd⟩ := List.mem_flatMap.mp hd
    exact Nat.lt_of_lt_of_le (a.children_bounds hc).1 (le_of_mem_descendants hd)
  constructor
  · rintro (⟨hv, hattr⟩ | ⟨henters, hmem, hentered⟩)
    · have hnode := node_of_mem_visitsAt hv
      refine ⟨List.mem_flatMap.mpr ⟨id, a.mem_descendants_self id, hv⟩, fun p hp henc => ?_⟩
      have hle := le_of_mem_descendants henc.1
      rw [hnode] at hle
      obtain rfl := Nat.le_antisymm hle (le_of_mem_descendants hp)
      exact hattr (henc.2 hnode.symm)
    · rw [descendants_eq]
      refine ⟨by rw [List.flatMap_cons]; exact List.mem_append_right _ hmem, fun p hp henc => ?_⟩
      rcases List.mem_cons.mp hp with rfl | hp
      · exact henters
      · exact hentered p hp henc
  · rintro ⟨hmem, hentered⟩
    rw [descendants_eq, List.flatMap_cons] at hmem
    rw [descendants_eq] at hentered
    rcases List.mem_append.mp hmem with hv | hmem
    · have hnode := node_of_mem_visitsAt hv
      refine .inl ⟨hv, fun hattr => hentered id List.mem_cons_self ⟨?_, fun _ => hattr⟩⟩
      rw [hnode]
      exact a.mem_descendants_self id
    · obtain ⟨d, hd, hvd⟩ := List.mem_flatMap.mp hmem
      have hnode := node_of_mem_visitsAt hvd
      refine .inr ⟨hentered id List.mem_cons_self ⟨?_, fun heq => ?_⟩, hmem, fun p hp henc =>
        hentered p (List.mem_cons_of_mem id hp) henc⟩
      · rw [hnode, descendants_eq]
        exact List.mem_cons_of_mem id hd
      · rw [hnode] at heq
        exact absurd heq (Nat.ne_of_lt (hlt d hd))
termination_by a.size - id
decreasing_by omega

/-- Whether a node lies in another one, at any depth. -/
def LiesIn (a : Arena) (id p : NodeId) : Prop := id ≠ p ∧ id ∈ a.descendants p

/-- A node in which another one lies has a child. -/
theorem LiesIn.exists_child {id p : NodeId} (h : a.LiesIn id p) : ∃ c, c ∈ a.children p := by
  obtain ⟨hne, hmem⟩ := h
  rw [descendants_eq] at hmem
  obtain ⟨c, hc, -⟩ := List.mem_flatMap.mp (List.mem_of_ne_of_mem hne hmem)
  exact ⟨c, hc⟩

theorem LiesIn.lt_size {id p : NodeId} (h : a.LiesIn id p) : p < a.size := by
  obtain ⟨c, hc⟩ := h.exists_child
  have hbounds := a.children_bounds hc
  exact Nat.lt_trans hbounds.1 hbounds.2

variable {topLevel : List NodeId}

/-- What a walk through a document comes by: all that lies in nothing but entered elements, the
attributes only of elements that are entered themselves. -/
theorem Linked.isReached_iff (h : a.Linked topLevel)
    (hrange : a.numbers topLevel = List.range a.size) (enters : NodeId → Bool) (v : Visit) :
    a.IsReached enters (topLevel.flatMap a.descendants) v ↔
      v.node < a.size ∧ v ∈ a.visitsAt v.node ∧ (v.isAttr = true → enters v.node = true) ∧
        ∀ p, a.LiesIn v.node p → enters p = true := by
  have hlisted : ∀ p, p ∈ topLevel.flatMap a.descendants ↔
      p < a.size ∧ (a.node p).isEndTag = false := by
    intro p
    rw [h.flatMap_descendants, hrange, List.mem_filter, List.mem_range, Bool.not_eq_true']
  constructor
  · rintro ⟨hmem, hentered⟩
    obtain ⟨d, hd, hvd⟩ := List.mem_flatMap.mp hmem
    have hnode := node_of_mem_visitsAt hvd
    subst hnode
    refine ⟨((hlisted _).mp hd).1, hvd,
      fun hattr => hentered _ hd ⟨a.mem_descendants_self _, fun _ => hattr⟩, ?_⟩
    intro p hp
    obtain ⟨c, hc⟩ := hp.exists_child
    refine hentered p ?_ ⟨hp.2, fun heq => absurd heq.symm hp.1⟩
    exact (hlisted p).mpr ⟨hp.lt_size, Node.isEndTag_of_children hc⟩
  · rintro ⟨hsize, hv, hattr, habove⟩
    refine ⟨List.mem_flatMap.mpr ⟨v.node, (hlisted _).mpr ⟨hsize, ?_⟩, hv⟩, ?_⟩
    · unfold visitsAt at hv
      unfold Node.isEndTag
      split
      · rename_i hkind
        rw [hkind] at hv
        cases hv
      · rfl
    · rintro p - ⟨hp, hself⟩
      by_cases heq : p = v.node
      · rw [heq]
        exact hattr (hself heq)
      · exact habove p ⟨Ne.symm heq, hp⟩

end Arena

/-! ### Walks in source order -/

mutual

/-- A walk that passes by what lies in some elements keeps the order of what it comes by. -/
theorem Tree.visits_sublist (enters : NodeId → Element → Bool) :
    ∀ tree : Tree, (tree.visits enters).Sublist (tree.visits fun _ _ => true)
  | .node id content children => by
      unfold Tree.visits
      split
      · rename_i e hkind
        rw [if_pos rfl]
        refine List.Sublist.cons_cons _ ?_
        split
        · exact List.Sublist.append (List.Sublist.refl _) (visitsOfAll_sublist enters children)
        · exact List.nil_sublist _
      all_goals exact List.Sublist.refl _

theorem Tree.visitsOfAll_sublist (enters : NodeId → Element → Bool) :
    ∀ trees : List Tree,
      (Tree.visitsOfAll enters trees).Sublist (Tree.visitsOfAll (fun _ _ => true) trees)
  | [] => List.Sublist.refl _
  | tree :: rest => by
      unfold Tree.visitsOfAll
      exact List.Sublist.append (visits_sublist enters tree) (visitsOfAll_sublist enters rest)

end

/-- What a walk comes by at a node stands in source order, from the start of the node to its end. -/
structure Arena.VisitsInOrder (a : Arena) (id : NodeId) : Prop where
  increasing : (a.visitsAt id).Pairwise fun v w => (v.place a).offset < (w.place a).offset
  inside : ∀ v ∈ a.visitsAt id, (a.node id).span.offset ≤ (v.place a).offset ∧
    (v.place a).offset < (a.node id).span.stop

theorem Node.IsRead.visitsInOrder {a : Arena} {tokens : List Token} {id : NodeId}
    (h : (a.node id).IsRead tokens id) (htokens : ∀ t ∈ tokens, t.NamesInOrder)
    (hpos : 0 < (a.node id).span.length) : a.VisitsInOrder id := by
  have hstop : (a.node id).span.offset < (a.node id).span.stop := Nat.lt_add_of_pos_right hpos
  have hsingle : ∀ v : Visit, v.place a = (a.node id).span → a.visitsAt id = [v] →
      a.VisitsInOrder id := by
    intro v hplace hvisits
    constructor
    · rw [hvisits]
      exact List.pairwise_singleton _ _
    · intro w hw
      rw [hvisits, List.mem_singleton] at hw
      rw [hw, hplace]
      exact ⟨Nat.le_refl _, hstop⟩
  cases hkind : (a.node id).kind with
  | element e =>
      obtain ⟨hincreasing, hinside⟩ := h.names htokens (element?_eq_some.mpr hkind)
      have hvisits : a.visitsAt id = .element id e :: e.attributes.map (.attr id) := by
        rw [Arena.visitsAt, hkind]
      constructor
      · rw [hvisits, List.pairwise_cons, List.pairwise_map]
        refine ⟨fun v hv => ?_, hincreasing⟩
        obtain ⟨x, hx, rfl⟩ := List.mem_map.mp hv
        exact (hinside x hx).1
      · intro v hv
        rw [hvisits] at hv
        rcases List.mem_cons.mp hv with rfl | hv
        · exact ⟨Nat.le_refl _, hstop⟩
        · obtain ⟨x, hx, rfl⟩ := List.mem_map.mp hv
          exact ⟨Nat.le_of_lt (hinside x hx).1, (hinside x hx).2⟩
  | text content blank => exact hsingle (.text id content blank) rfl (by rw [Arena.visitsAt, hkind])
  | comment content => exact hsingle (.comment id content) rfl (by rw [Arena.visitsAt, hkind])
  | endTag name =>
      have hvisits : a.visitsAt id = [] := by rw [Arena.visitsAt, hkind]
      constructor
      · rw [hvisits]
        exact .nil
      · rw [hvisits]
        exact List.forall_mem_nil _

namespace Arena

variable {a first : Arena} {topLevel : List NodeId}

theorem GrowsTo.tree_eq (h : first.GrowsTo a) {id : NodeId} (hid : id < first.size) :
    a.tree id = first.tree id :=
  tree_congr (fun i _ hi => h.kept i hi) (Nat.zero_le id) hid

theorem GrowsTo.descendants_eq (h : first.GrowsTo a) {id : NodeId} (hid : id < first.size) :
    a.descendants id = first.descendants id := by
  rw [descendants, h.tree_eq hid, descendants]

/-- Copies do not change what a walk through a document comes by. -/
theorem GrowsTo.visits_eq (h : first.GrowsTo a) (htop : ∀ id ∈ topLevel, id < first.size)
    (enters : NodeId → Bool) :
    Tree.visitsOfAll (fun id _ => enters id) (topLevel.map a.tree)
      = topLevel.flatMap fun c => (first.tree c).visits fun id _ => enters id := by
  rw [Tree.visitsOfAll_eq, List.flatMap_map]
  exact List.flatMap_congr fun id hid => by rw [h.tree_eq (htop id hid)]

/-- What a walk comes by stands in source order. -/
theorem visits_increasing {limit : Nat} {tokens : List Token} (hlinked : first.Linked topLevel)
    (hrange : first.numbers topLevel = List.range first.size) (horder : first.InOrder limit)
    (hread : first.IsRead tokens) (htokens : ∀ t ∈ tokens, t.NamesInOrder)
    (enters : NodeId → Bool) :
    (topLevel.flatMap fun c => (first.tree c).visits fun id _ => enters id).Pairwise
      fun v w => (v.place first).offset < (w.place first).offset := by
  have hat : ∀ id < first.size, first.VisitsInOrder id := fun id hid =>
    (hread id).visitsInOrder htokens (horder.length_pos id hid)
  have hall : ((topLevel.flatMap first.descendants).flatMap first.visitsAt).Pairwise
      fun v w => (v.place first).offset < (w.place first).offset := by
    rw [hlinked.flatMap_descendants, hrange, List.pairwise_flatMap]
    refine ⟨fun id hid => (hat id ?_).increasing, ?_⟩
    · exact List.mem_range.mp (List.mem_filter.mp hid).1
    · refine (List.pairwise_lt_range.filter _).imp_of_mem fun {i j} hi hj hij v hv w hw => ?_
      have hi := List.mem_range.mp (List.mem_filter.mp hi).1
      have hj := List.mem_range.mp (List.mem_filter.mp hj).1
      calc (v.place first).offset < (first.node i).span.stop := ((hat i hi).inside v hv).2
        _ ≤ (first.node j).span.offset := horder.stop_le_offset i j hij hj
        _ ≤ (w.place first).offset := ((hat j hj).inside w hw).1
  refine hall.sublist ?_
  rw [List.flatMap_assoc]
  refine List.Sublist.flatMap_right _ fun c _ => ?_
  rw [← visits_tree]
  exact Tree.visits_sublist _ _

end Arena

end PatternMarkup
