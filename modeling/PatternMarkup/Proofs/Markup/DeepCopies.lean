import Mathlib.Data.List.Induction
import PatternMarkup.Proofs.Markup.Copies
import PatternMarkup.Proofs.Markup.WellFormed
/-!
Copies of subtrees are faithful, in what a text was read as and after any number of copies made
there. The copy stands at the end, its nodes in the order of those they are copies of; what differs
is where they lie, their end tags, and the attributes of the root that are overridden.
-/

namespace PatternMarkup

/-! ### Overridden attributes -/

/-- The attributes that come of overriding some of those that were there. -/
structure Overridden (old overrides new : List Attribute) : Prop where
  /-- A name that is overridden stands for the last attribute given for it. -/
  resolved : ∀ name ∈ overrides.map (·.name),
    new.find? (·.name == name) = overrides.reverse.find? (·.name == name)
  /-- What is not the first attribute of an overridden name stays in its place. -/
  kept : ∀ i b, old[i]? = some b →
    (b.name ∈ overrides.map (·.name) → b.name ∈ (old.take i).map (·.name)) → new[i]? = some b
  /-- New names come at the end, by where each is given first. -/
  names : new.map (·.name) = old.map (·.name) ++
    ((overrides.map (·.name)).filter fun name => name ∉ old.map (·.name)).eraseDups

namespace Arena

theorem find?_overrideAttribute_self (attributes : List Attribute) (o : Attribute) :
    (overrideAttribute attributes o).find? (·.name == o.name) = some o := by
  induction attributes with
  | nil => simp [overrideAttribute]
  | cons b rest ih =>
      by_cases hb : b.name = o.name
      · simp [overrideAttribute, hb]
      · simp [overrideAttribute, hb, ih]

theorem find?_overrideAttribute_of_ne (attributes : List Attribute) {o : Attribute} {name : String}
    (h : o.name ≠ name) :
    (overrideAttribute attributes o).find? (·.name == name)
      = attributes.find? (·.name == name) := by
  induction attributes with
  | nil => simp [overrideAttribute, h]
  | cons b rest ih =>
      by_cases hb : b.name = o.name
      · simp [overrideAttribute, hb, h]
      · simp [overrideAttribute, hb, List.find?_cons, ih]

theorem getElem?_overrideAttribute {attributes : List Attribute} {o b : Attribute} {i : Nat}
    (hi : attributes[i]? = some b)
    (h : b.name = o.name → b.name ∈ (attributes.take i).map (·.name)) :
    (overrideAttribute attributes o)[i]? = some b := by
  induction attributes generalizing i with
  | nil => cases hi
  | cons first rest ih =>
      cases i with
      | zero =>
          obtain rfl := Option.some.inj hi
          have hne : first.name ≠ o.name := by
            intro heq
            simpa using h heq
          rw [overrideAttribute, if_neg hne]
          rfl
      | succ i =>
          by_cases hfirst : first.name = o.name
          · rw [overrideAttribute, if_pos hfirst]
            exact hi
          · rw [overrideAttribute, if_neg hfirst]
            refine ih hi fun heq => ?_
            have hmem := h heq
            rw [List.take_succ_cons, List.map_cons, List.mem_cons] at hmem
            exact hmem.resolve_left fun hb => hfirst (hb ▸ heq)

theorem names_overrideAttribute (attributes : List Attribute) (o : Attribute) :
    (overrideAttribute attributes o).map (·.name) = attributes.map (·.name) ++
      if o.name ∈ attributes.map (·.name) then [] else [o.name] := by
  induction attributes with
  | nil => rfl
  | cons b rest ih =>
      by_cases hb : b.name = o.name
      · simp [overrideAttribute, hb]
      · simp [overrideAttribute, hb, ih, Ne.symm hb]

/-- One more name at the end, where the names are those that are not there before. -/
theorem eraseDups_filter_concat (names others : List String) (name : String) :
    ((others ++ [name]).filter fun n => n ∉ names).eraseDups
      = (others.filter fun n => n ∉ names).eraseDups ++
        if name ∈ names ∨ name ∈ others then [] else [name] := by
  rw [List.filter_append, List.eraseDups_append]
  by_cases hname : name ∈ names
  · simp [hname]
  · by_cases hother : name ∈ others
    · simp [hname, hother, List.removeAll]
    · simp [hname, hother, List.removeAll, List.eraseDups_cons]

/-- Overriding attributes one after another. The induction is on the overrides, from the last. -/
theorem overridden_foldl (old overrides : List Attribute) :
    Overridden old overrides (overrides.foldl overrideAttribute old) := by
  induction overrides using List.reverseRecOn with
  | nil => exact ⟨by simp, fun i b hi _ => hi, by simp⟩
  | append_singleton overrides o ih =>
      rw [List.foldl_append]
      generalize overrides.foldl overrideAttribute old = new at ih ⊢
      simp only [List.foldl_cons, List.foldl_nil]
      refine ⟨?_, ?_, ?_⟩
      · intro name hname
        rw [List.reverse_append, List.reverse_singleton, List.singleton_append, List.find?_cons]
        by_cases ho : o.name = name
        · subst ho
          simp [find?_overrideAttribute_self]
        · have hmem : name ∈ overrides.map (·.name) := by simpa [Ne.symm ho] using hname
          rw [find?_overrideAttribute_of_ne new ho, ih.resolved name hmem, beq_false_of_ne ho]
      · intro i b hi h
        have hbefore := ih.kept i b hi fun hmem => h (by simp [hmem])
        refine getElem?_overrideAttribute hbefore fun hname => ?_
        have hi' : i ≤ (old.map (·.name)).length := by
          rw [List.length_map]
          exact Nat.le_of_lt (List.getElem?_eq_some_iff.mp hi).1
        rw [List.map_take, ih.names, List.take_append_of_le_length hi', ← List.map_take]
        exact h (by simp [hname])
      · rw [names_overrideAttribute, ih.names, List.map_append, List.append_assoc]
        generalize old.map (·.name) = names, overrides.map (·.name) = others
        rw [List.map_singleton, eraseDups_filter_concat]
        simp [and_comm, or_and_left, Classical.em]

end Arena

/-! ### Copied nodes -/

namespace Node

/-- The copy of a node, where `number` gives the numbers of the copies of all nodes. -/
def copied (number : NodeId → NodeId) (n : Node) (id : NodeId) : Node :=
  { n.mapElement (fun e => { e with children := e.children.map number, endTag := none }) with
    parent := n.parent.map number, origin := some (n.source id) }

theorem children_copied (number : NodeId → NodeId) (n : Node) (id : NodeId) :
    (n.copied number id).children = n.children.map number := by
  obtain ⟨kind, span, parent, origin⟩ := n
  cases kind <;> rfl

end Node

namespace Arena

variable {a b c : Arena} {number : NodeId → NodeId} {id p : NodeId}

/-- Each child of a node lies in that node. -/
def LinkedUp (a : Arena) : Prop := ∀ p, ∀ c ∈ a.children p, (a.node c).parent = some p

/-- What copying the tree at a node adds to an arena. -/
structure AddsCopy (a : Arena) (number : NodeId → NodeId) (id : NodeId) (parent : Option NodeId)
    (b c : Arena) : Prop where
  size : c.size = b.size + (a.descendants id).length
  kept : ∀ i < b.size, c.node i = b.node i
  root : c.node b.size = { (a.node id).copied number id with parent }
  below : ∀ d ∈ (a.children id).flatMap a.descendants,
    c.node (number d) = (a.node d).copied number d

/-- What copying the trees at some nodes adds to an arena, where they become children of
`parent`. -/
structure AddsCopies (a : Arena) (number : NodeId → NodeId) (ids : List NodeId) (parent : NodeId)
    (b c : Arena) : Prop where
  size : c.size = b.size + (ids.flatMap a.descendants).length
  kept : ∀ i < b.size, i ≠ parent → c.node i = b.node i
  parent : c.node parent
    = (b.node parent).mapElement fun e => { e with children := e.children ++ ids.map number }
  copied : ∀ d ∈ ids.flatMap a.descendants, c.node (number d) = (a.node d).copied number d

theorem bounds_of_map_eq {ids : List NodeId} {start : Nat}
    (h : ids.map number = List.range' start ids.length) {d : NodeId} (hd : d ∈ ids) :
    start ≤ number d ∧ number d < start + ids.length := by
  have hmem : number d ∈ List.range' start ids.length := h ▸ List.mem_map_of_mem hd
  exact List.mem_range'_1.mp hmem

theorem number_of_map_eq {id : NodeId} {start : Nat}
    (h : (a.descendants id).map number = List.range' start (a.descendants id).length) :
    number id = start := by
  rw [descendants_eq, List.map_cons, List.length_cons, List.range'_succ] at h
  exact (List.cons.inj h).1

/-- The copy of a child of `p` lies in the copy of `p`. -/
theorem AddsCopy.copied (h : a.AddsCopy number id (some (number p)) b c)
    (hparent : (a.node id).parent = some p) (hid : number id = b.size) :
    ∀ d ∈ a.descendants id, c.node (number d) = (a.node d).copied number d := by
  intro d hd
  rw [descendants_eq] at hd
  rcases List.mem_cons.mp hd with rfl | hd
  · rw [hid, h.root, Node.copied, hparent]
    rfl
  · exact h.below d hd

theorem addsCopies_copyTrees (hup : a.LinkedUp) {ids : List NodeId}
    (hids : ∀ id ∈ ids, id ∈ a.children p)
    (ih : ∀ id ∈ ids, ∀ (b : Arena) (parent : Option NodeId),
      (a.descendants id).map number = List.range' b.size (a.descendants id).length →
      a.AddsCopy number id parent b (b.copyTree parent (a.tree id)))
    {b : Arena} (hp : number p < b.size)
    (hnumber : (ids.flatMap a.descendants).map number
      = List.range' b.size (ids.flatMap a.descendants).length) :
    a.AddsCopies number ids (number p) b (b.copyTrees (number p) (ids.map a.tree)) := by
  induction ids generalizing b with
  | nil => exact ⟨rfl, fun _ _ _ => rfl, (Node.mapElement_append_nil _).symm, nofun⟩
  | cons id rest ihRest =>
      rw [List.flatMap_cons, List.map_append, List.length_append, ← List.range'_append_1] at hnumber
      obtain ⟨hfirst, hrest⟩ := List.append_inj hnumber (by simp)
      have hid := number_of_map_eq hfirst
      have hcopy := ih id List.mem_cons_self b (some (number p)) hfirst
      have hcopied := hcopy.copied (hup p id (hids id List.mem_cons_self)) hid
      rw [List.map_cons, copyTrees]
      generalize b.copyTree (some (number p)) (a.tree id) = c at hcopy hcopied
      have hsize : (c.addChild (number p) b.size).size = b.size + (a.descendants id).length := by
        rw [size_addChild, hcopy.size]
      have hp' : number p < (c.addChild (number p) b.size).size := by
        rw [hsize]
        exact Nat.lt_of_lt_of_le hp (Nat.le_add_right _ _)
      have hmore : a.AddsCopies number rest (number p) (c.addChild (number p) b.size) _ :=
        ihRest (fun i hi => hids i (List.mem_cons_of_mem id hi))
          (fun i hi => ih i (List.mem_cons_of_mem id hi)) hp' (by rw [hsize]; exact hrest)
      refine ⟨?_, ?_, ?_, ?_⟩
      · rw [hmore.size, hsize, List.flatMap_cons, List.length_append, Nat.add_assoc]
      · intro i hi hne
        rw [hmore.kept i (by omega) hne, node_addChild_of_ne c b.size hne, hcopy.kept i hi]
      · have hlast : b.size < c.size := by
          have hpos : 0 < (a.descendants id).length := by simp [descendants_eq a id]
          have hc := hcopy.size
          omega
        rw [hmore.parent, node_addChild_self c hp hlast, hcopy.kept _ hp, List.map_cons, hid,
          Node.mapElement_append_append]
        rfl
      · intro d hd
        rw [List.flatMap_cons] at hd
        rcases List.mem_append.mp hd with hd | hd
        · obtain ⟨hge, hlt⟩ := bounds_of_map_eq hfirst hd
          have hne : number d ≠ number p := Nat.ne_of_gt (Nat.lt_of_lt_of_le hp hge)
          rw [hmore.kept _ (by rw [hsize]; exact hlt) hne, node_addChild_of_ne c b.size hne,
            hcopied d hd]
        · exact hmore.copied d hd

theorem children_node (a : Arena) (id : NodeId) : (a.node id).children = a.children id := rfl

/-- Copying a tree adds the copy of each of its nodes. The induction is on the number of the root,
as children come after their parent. -/
theorem addsCopy_copyTree (hup : a.LinkedUp) (id : NodeId) (b : Arena) (parent : Option NodeId)
    (hnumber : (a.descendants id).map number = List.range' b.size (a.descendants id).length) :
    a.AddsCopy number id parent b (b.copyTree parent (a.tree id)) := by
  have hid := number_of_map_eq hnumber
  have hbelow : ((a.children id).flatMap a.descendants).map number
      = List.range' (b.size + 1) ((a.children id).flatMap a.descendants).length := by
    rw [descendants_eq, List.map_cons, List.length_cons, List.range'_succ] at hnumber
    exact (List.cons.inj hnumber).2
  rw [tree_eq, copyTree]
  generalize hroot : Node.mk _ _ parent _ = root
  have hmore : a.AddsCopies number (a.children id) (number id) (b.add root)
      ((b.add root).copyTrees (number id) ((a.children id).map a.tree)) := by
    refine addsCopies_copyTrees hup (fun _ hc => hc) (fun c hc d parent' hd => ?_) ?_ ?_
    · have hbounds := a.children_bounds hc
      exact addsCopy_copyTree hup c d parent' hd
    · rw [hid]
      exact lt_size_add b root
    · rw [size_add]
      exact hbelow
  rw [hid] at hmore
  refine ⟨?_, ?_, ?_, hmore.copied⟩
  · rw [hmore.size, size_add, descendants_eq, List.length_cons]
    omega
  · intro i hi
    rw [hmore.kept i (by rw [size_add]; omega) (Nat.ne_of_lt hi), node_add_of_lt b root hi]
  · rw [hmore.parent, node_add_size, ← children_node, ← hroot]
    obtain ⟨kind, span, parent', origin⟩ := a.node id
    cases kind <;> rfl
termination_by a.size - id
decreasing_by omega

/-! ### Descendants -/

theorem mem_descendants_self (a : Arena) (id : NodeId) : id ∈ a.descendants id := by
  rw [descendants_eq]
  exact List.mem_cons_self

theorem descendants_of_no_children (h : a.children id = []) : a.descendants id = [id] := by
  rw [descendants_eq, h]
  rfl

theorem descendants_child_subset (hp : p ∈ a.children id) :
    a.descendants p ⊆ a.descendants id := by
  intro d hd
  rw [descendants_eq]
  exact List.mem_cons_of_mem id (List.mem_flatMap.mpr ⟨p, hp, hd⟩)

/-- Below a node lie the children of what lies there. The induction is on the number of the node. -/
theorem exists_parent_of_mem_descendants {id d : NodeId} (hd : d ∈ a.descendants id)
    (hne : d ≠ id) : ∃ p ∈ a.descendants id, d ∈ a.children p := by
  rw [descendants_eq] at hd
  obtain ⟨c, hc, hd⟩ := List.mem_flatMap.mp (List.mem_of_ne_of_mem hne hd)
  by_cases hdc : d = c
  · subst hdc
    exact ⟨id, a.mem_descendants_self id, hc⟩
  · have hbounds := a.children_bounds hc
    obtain ⟨p, hp, hdp⟩ := exists_parent_of_mem_descendants hd hdc
    exact ⟨p, descendants_child_subset hc hp, hdp⟩
termination_by a.size - id
decreasing_by omega

theorem lt_size_of_mem_descendants (hid : id < a.size) {d : NodeId} (hd : d ∈ a.descendants id) :
    d < a.size := by
  by_cases hne : d = id
  · rwa [hne]
  · obtain ⟨p, -, hdp⟩ := exists_parent_of_mem_descendants hd hne
    exact (a.children_bounds hdp).2

theorem descendants_subset {id d : NodeId} (hd : d ∈ a.descendants id) :
    a.descendants d ⊆ a.descendants id := by
  by_cases hne : d = id
  · rw [hne]
    exact List.Subset.refl _
  · rw [descendants_eq] at hd
    obtain ⟨c, hc, hd⟩ := List.mem_flatMap.mp (List.mem_of_ne_of_mem hne hd)
    have hbounds := a.children_bounds hc
    exact List.Subset.trans (descendants_subset hd) (descendants_child_subset hc)
termination_by a.size - id
decreasing_by omega

/-- What lies in a node of a subtree lies below its root. -/
theorem mem_below_of_mem_children {d child : NodeId} (hd : d ∈ a.descendants id)
    (hchild : child ∈ a.children d) : child ∈ (a.children id).flatMap a.descendants := by
  rw [descendants_eq] at hd
  rcases List.mem_cons.mp hd with rfl | hd
  · exact List.mem_flatMap.mpr ⟨child, hchild, a.mem_descendants_self child⟩
  · obtain ⟨c, hc, hd⟩ := List.mem_flatMap.mp hd
    have hbelow := descendants_child_subset hchild (a.mem_descendants_self child)
    exact List.mem_flatMap.mpr ⟨c, hc, descendants_subset hd hbelow⟩

/-- Where the children of copies are copies of the children, the same holds of what lies below. -/
theorem descendants_number {id : NodeId}
    (h : ∀ d ∈ a.descendants id, c.children (number d) = (a.children d).map number) :
    c.descendants (number id) = (a.descendants id).map number := by
  rw [descendants_eq, descendants_eq a id, h id (a.mem_descendants_self id), List.flatMap_map,
    List.map_cons, List.map_flatMap]
  congr 1
  refine List.flatMap_congr fun child hchild => ?_
  have hbounds := a.children_bounds hchild
  exact descendants_number fun d hd => h d (descendants_child_subset hchild hd)
termination_by a.size - id
decreasing_by omega

/-! ### Faithful copies -/

/-- The number that the copy of a node gets, where the subtree under `id` is copied. -/
def copyNumber (a : Arena) (id d : NodeId) : NodeId := a.size + (a.descendants id).idxOf d

theorem copyNumber_of_getElem? (h : (a.descendants id).Nodup) {i : Nat} {d : NodeId}
    (hd : (a.descendants id)[i]? = some d) : a.copyNumber id d = a.size + i := by
  obtain ⟨hi, rfl⟩ := List.getElem?_eq_some_iff.mp hd
  rw [copyNumber, h.idxOf_getElem]

theorem copyNumber_inj {d d' : NodeId} (hd : d ∈ a.descendants id)
    (h : a.copyNumber id d = a.copyNumber id d') : d = d' :=
  (List.idxOf_inj hd).mp (Nat.add_left_cancel h)

theorem map_copyNumber (h : (a.descendants id).Nodup) :
    (a.descendants id).map (a.copyNumber id)
      = List.range' a.size (a.descendants id).length := by
  apply List.ext_getElem
  · simp
  · intro i hi hi'
    rw [List.getElem_map, List.getElem_range', Nat.one_mul]
    rw [List.length_map] at hi
    exact copyNumber_of_getElem? h (List.getElem?_eq_getElem hi)

/-- No node lies in two others or twice in one. -/
structure Tidy (a : Arena) : Prop where
  up : a.LinkedUp
  distinct : ∀ id, (a.descendants id).Nodup

/-- What adding a copy of the subtree under `id` makes of an arena: the nodes that were there stay,
and every node of the subtree gets one copy, in the same order. -/
structure Duplicates (a : Arena) (id : NodeId) (overrides : List Attribute) (b : Arena) : Prop where
  kept : ∀ i < a.size, b.node i = a.node i
  size : b.size = a.size + (a.descendants id).length
  descendants : b.descendants a.size = List.range' a.size (a.descendants id).length
  /-- What is copied lies in the subtree with its parent, the root apart. -/
  inside : ∀ d ∈ a.descendants id, d ≠ id → ∃ p ∈ a.descendants id, (a.node d).parent = some p
  copied : ∀ i d, (a.descendants id)[i + 1]? = some d →
    b.node (a.size + (i + 1)) = (a.node d).copied (a.copyNumber id) d
  root : ∃ attributes,
    (∀ e, (a.node id).kind = .element e → Overridden e.attributes overrides attributes) ∧
    b.node a.size = { ((a.node id).copied (a.copyNumber id) id).mapElement fun e =>
      { e with attributes } with parent := (a.node id).parent }
  /-- A copy stands for what the node stands for that it is a copy of, and that is no copy. -/
  original : ∀ i d, (a.descendants id)[i]? = some d →
    b.source (a.size + i) = a.source d ∧ (b.node (a.source d)).origin = none

namespace Tidy

variable (h : a.Tidy) (id : NodeId) (overrides : List Attribute)

include h

theorem addsCopy : a.AddsCopy (a.copyNumber id) id (a.node id).parent a
    (a.copyTree (a.node id).parent (a.tree id)) :=
  addsCopy_copyTree h.up id a (a.node id).parent (map_copyNumber (h.distinct id))

theorem size_copySubtree :
    (a.copySubtree id overrides).size = a.size + (a.descendants id).length := by
  rw [copySubtree, size_updateElement, (h.addsCopy id).size]

theorem kept_copySubtree {i : NodeId} (hi : i < a.size) :
    (a.copySubtree id overrides).node i = a.node i := by
  rw [copySubtree, node_updateElement_of_ne _ _ _ (Nat.ne_of_lt hi), (h.addsCopy id).kept i hi]

theorem root_copySubtree : ∃ attributes,
    (∀ e, (a.node id).kind = .element e → Overridden e.attributes overrides attributes) ∧
    (a.copySubtree id overrides).node a.size
      = { ((a.node id).copied (a.copyNumber id) id).mapElement fun e =>
            { e with attributes } with parent := (a.node id).parent } := by
  rw [copySubtree, node_updateElement_self, (h.addsCopy id).root]
  obtain ⟨kind, span, parent, origin⟩ := a.node id
  cases kind with
  | element e =>
      refine ⟨overrides.foldl overrideAttribute e.attributes, ?_, rfl⟩
      rintro e' ⟨⟩
      exact overridden_foldl e.attributes overrides
  | _ =>
      refine ⟨[], ?_, rfl⟩
      rintro e ⟨⟩

/-- The root gets the first number of the copy. -/
theorem copyNumber_self : a.copyNumber id id = a.size :=
  number_of_map_eq (map_copyNumber (h.distinct id))

theorem node_copySubtree {d : NodeId} (hd : d ∈ (a.children id).flatMap a.descendants) :
    (a.copySubtree id overrides).node (a.copyNumber id d)
      = (a.node d).copied (a.copyNumber id) d := by
  have hne : a.copyNumber id d ≠ a.size := by
    rw [← h.copyNumber_self id]
    intro heq
    have hdistinct := h.distinct id
    rw [descendants_eq] at hdistinct
    have hmem : d ∈ a.descendants id := by
      rw [descendants_eq]
      exact List.mem_cons_of_mem id hd
    obtain rfl := copyNumber_inj hmem heq
    exact (List.nodup_cons.mp hdistinct).1 hd
  rw [copySubtree, node_updateElement_of_ne _ _ _ hne, (h.addsCopy id).below d hd]

theorem children_copySubtree {d : NodeId} (hd : d ∈ a.descendants id) :
    (a.copySubtree id overrides).children (a.copyNumber id d)
      = (a.children d).map (a.copyNumber id) := by
  rw [descendants_eq] at hd
  rcases List.mem_cons.mp hd with rfl | hd
  · obtain ⟨attributes, -, hroot⟩ := h.root_copySubtree d overrides
    rw [children, h.copyNumber_self, hroot, ← children_node, ← Node.children_copied _ _ d]
    exact Node.children_mapElement _ fun _ => rfl
  · rw [children, h.node_copySubtree id overrides hd, Node.children_copied, children_node]

theorem descendants_copySubtree {d : NodeId} (hd : d ∈ a.descendants id) :
    (a.copySubtree id overrides).descendants (a.copyNumber id d)
      = (a.descendants d).map (a.copyNumber id) :=
  descendants_number fun _ hi => h.children_copySubtree id overrides (descendants_subset hd hi)

/-- Every number from the first one of the copy on is that of a copied node. -/
theorem exists_copyNumber {i : NodeId} (hge : a.size ≤ i)
    (hlt : i < (a.copySubtree id overrides).size) :
    ∃ d ∈ a.descendants id, a.copyNumber id d = i := by
  rw [h.size_copySubtree] at hlt
  have hmem := List.mem_range'_1.mpr ⟨hge, hlt⟩
  rw [← map_copyNumber (h.distinct id)] at hmem
  exact List.mem_map.mp hmem

/-- A copy leaves an arena tidy: a new node lies in the copy of what it lay in. -/
theorem copySubtree : (a.copySubtree id overrides).Tidy := by
  have hkept : ∀ i < a.size, (a.copySubtree id overrides).children i = a.children i := by
    intro i hi
    rw [children, h.kept_copySubtree id overrides hi, children_node]
  constructor
  · intro p c hc
    rcases Nat.lt_or_ge p a.size with hp | hp
    · rw [hkept p hp] at hc
      rw [h.kept_copySubtree id overrides (a.children_bounds hc).2, h.up p c hc]
    · have hbounds := (a.copySubtree id overrides).children_bounds hc
      obtain ⟨q, hq, rfl⟩ :=
        h.exists_copyNumber id overrides hp (Nat.lt_trans hbounds.1 hbounds.2)
      rw [h.children_copySubtree id overrides hq] at hc
      obtain ⟨d, hd, rfl⟩ := List.mem_map.mp hc
      rw [h.node_copySubtree id overrides (mem_below_of_mem_children hq hd), Node.copied,
        h.up q d hd]
      rfl
  · intro i
    rcases Nat.lt_or_ge i a.size with hi | hi
    · have htree : (a.copySubtree id overrides).tree i = a.tree i :=
        tree_congr (fun j _ hj => h.kept_copySubtree id overrides hj) (Nat.zero_le i) hi
      rw [descendants, htree]
      exact h.distinct i
    · rcases Nat.lt_or_ge i (a.copySubtree id overrides).size with hlt | hge
      · obtain ⟨d, hd, rfl⟩ := h.exists_copyNumber id overrides hi hlt
        rw [h.descendants_copySubtree id overrides hd]
        refine (h.distinct d).map_on fun j hj j' _ heq => ?_
        exact copyNumber_inj (descendants_subset hd hj) heq
      · rw [descendants_of_no_children (children_of_size_le _ hge)]
        exact List.nodup_singleton i

/-- In a tidy arena the copy of a subtree is faithful, if what nodes stand for is no copy. -/
theorem duplicates
    (horigin : ∀ d < a.size, a.source d < a.size ∧ (a.node (a.source d)).origin = none)
    (hid : id < a.size) : a.Duplicates id overrides (a.copySubtree id overrides) := by
  have hdescendants := h.descendants_copySubtree id overrides (a.mem_descendants_self id)
  rw [h.copyNumber_self, map_copyNumber (h.distinct id)] at hdescendants
  have hcopied : ∀ i d, (a.descendants id)[i + 1]? = some d →
      (a.copySubtree id overrides).node (a.size + (i + 1))
        = (a.node d).copied (a.copyNumber id) d := by
    intro i d hd
    rw [← copyNumber_of_getElem? (h.distinct id) hd]
    rw [descendants_eq, List.getElem?_cons_succ] at hd
    exact h.node_copySubtree id overrides (List.mem_of_getElem? hd)
  refine ⟨fun i hi => h.kept_copySubtree id overrides hi, h.size_copySubtree id overrides,
    hdescendants, ?_, hcopied, h.root_copySubtree id overrides, ?_⟩
  · intro d hd hne
    obtain ⟨p, hp, hdp⟩ := exists_parent_of_mem_descendants hd hne
    exact ⟨p, hp, h.up p d hdp⟩
  · intro i d hd
    have hd' : d < a.size := lt_size_of_mem_descendants hid (List.mem_of_getElem? hd)
    obtain ⟨hlt, hnone⟩ := horigin d hd'
    refine ⟨?_, by rw [h.kept_copySubtree id overrides hlt, hnone]⟩
    cases i with
    | zero =>
        obtain ⟨attributes, -, hroot⟩ := h.root_copySubtree id overrides
        rw [descendants_eq] at hd
        obtain rfl := Option.some.inj hd
        rw [Nat.add_zero, source, hroot, Node.source, Node.origin_mapElement]
        rfl
    | succ i =>
        rw [source, hcopied i d hd]
        rfl

end Tidy

end Arena

/-! ### Arenas with copies -/

namespace Arena

theorem Linked.tidy {a : Arena} {topLevel : List NodeId} (h : a.Linked topLevel)
    (hrange : a.numbers topLevel = List.range a.size) : a.Tidy := by
  refine ⟨fun p c hc => (h.up (some p) c hc).2.1, fun id => ?_⟩
  cases hchildren : a.children id with
  | nil =>
      rw [descendants_of_no_children hchildren]
      exact List.nodup_singleton id
  | cons c rest =>
      have hc : c ∈ a.children id := hchildren ▸ List.mem_cons_self
      have hbounds := a.children_bounds hc
      have hend := Node.isEndTag_of_children hc
      have hincreasing := (numbers_tree_range h hrange (Nat.lt_trans hbounds.1 hbounds.2) hend).1
      rw [h.descendants hend]
      exact (hincreasing.imp Nat.ne_of_lt).filter _

/-- The nodes of a document that was read, and of copies that were made there one after another. -/
inductive Made : Arena → Prop
  | read (source : String) (keepComments : Bool) :
      Made (Document.ofSource source keepComments).arena
  | copy {a : Arena} {id : NodeId} (overrides : List Attribute) (h : Made a) (hid : id < a.size) :
      Made (a.copySubtree id overrides)

theorem Made.tidy {a : Arena} (h : a.Made) : a.Tidy := by
  induction h with
  | read source keepComments =>
      obtain ⟨hlinked, -, hrange, -⟩ :=
        TreeBuilder.sound_ofTokens keepComments (TokenStream.tiles_ofSource source)
      exact hlinked.tidy hrange
  | copy overrides _ _ ih => exact ih.copySubtree _ overrides

theorem Made.growsFrom {a : Arena} (h : a.Made) :
    ∃ first : Arena, first.IsWritten ∧ first.GrowsTo a := by
  induction h with
  | read source keepComments =>
      exact ⟨_, Document.isWritten_ofSource source keepComments, GrowsTo.refl _⟩
  | copy overrides _ hid ih =>
      obtain ⟨first, hfirst, hgrows⟩ := ih
      exact ⟨first, hfirst, hgrows.trans (growsTo_copySubtree hid overrides)⟩

/-- The copy of a subtree is faithful, in what was read and whatever was copied there before. -/
theorem Made.copySubtree_duplicates {a : Arena} (h : a.Made) {id : NodeId} (hid : id < a.size)
    (overrides : List Attribute) : a.Duplicates id overrides (a.copySubtree id overrides) := by
  obtain ⟨first, hfirst, hgrows⟩ := h.growsFrom
  refine h.tidy.duplicates id overrides (fun d hd => ⟨?_, ?_⟩) hid
  · exact Nat.lt_of_lt_of_le (hgrows.source_lt hfirst hd) hgrows.size
  · exact hgrows.origin_source hfirst hd

/-- An element and the one in it are copied from a copy, with another value for an attribute. -/
theorem copySubtree_duplicates_copy :
    let read := (Document.ofSource "<g a='1'><c/></g>" false).arena
    let copied := read.copySubtree 0 []
    let other : Attribute := ⟨"a", "2", Span.origin, Span.origin, 1, 0, true⟩
    copied.Made ∧ 3 < copied.size ∧
      copied.Duplicates 3 [other] (copied.copySubtree 3 [other]) := by
  have hread := Made.read "<g a='1'><c/></g>" false
  have hroot : 0 < (Document.ofSource "<g a='1'><c/></g>" false).arena.size := by decide +kernel
  have hcopied := hread.copy [] hroot
  have hsize : 3 < ((Document.ofSource "<g a='1'><c/></g>" false).arena.copySubtree 0 []).size := by
    decide +kernel
  exact ⟨hcopied, hsize, hcopied.copySubtree_duplicates hsize _⟩

end Arena

end PatternMarkup
