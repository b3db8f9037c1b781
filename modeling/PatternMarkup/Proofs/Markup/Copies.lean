import PatternMarkup.Proofs.Markup.StartTags
/-!
Copying a subtree changes no node that was there, and every node it adds points back to a node of
the source: in what a text was read as no node is a copy, so whatever was copied from there since,
a copy of a copy included, goes back to a node that was read.
-/

namespace PatternMarkup

namespace Node

theorem source_mapElement (n : Node) (f : Element → Element) (id : NodeId) :
    (n.mapElement f).source id = n.source id := by
  rw [source, origin_mapElement, source]

theorem origin_withoutChildren (n : Node) : n.withoutChildren.origin = n.origin :=
  origin_mapElement n _

/-- Whether a node, of the given number, is no copy, and its attributes were written in it. -/
structure IsWritten (n : Node) (id : NodeId) : Prop where
  origin : n.origin = none
  owner : ∀ e, n.element? = some e → ∀ a ∈ e.attributes, a.owner = id

theorem IsRead.isWritten {n : Node} {tokens : List Token} {id : NodeId}
    (h : n.IsRead tokens id) : n.IsWritten id := by
  refine ⟨h.origin, fun e he a ha => ?_⟩
  obtain ⟨i, hi, rfl⟩ := List.getElem_of_mem ha
  exact (h.attribute he (List.getElem?_eq_getElem hi)).1

end Node

namespace Arena

/-! ### Documents as they are read -/

/-- Whether no node is a copy, and every attribute belongs to the element it is in. -/
def IsWritten (a : Arena) : Prop := ∀ id, (a.node id).IsWritten id

variable {a b c : Arena}

theorem IsWritten.source (h : a.IsWritten) (id : NodeId) : a.source id = id := by
  rw [Arena.source, Node.source, (h id).origin]
  rfl

end Arena

theorem Document.isWritten_ofSource (source : String) (keepComments : Bool) :
    (ofSource source keepComments).arena.IsWritten := fun id =>
  (isRead_ofSource source keepComments id).isWritten

namespace Arena

/-! ### Growth by copies -/

/-- Whether an arena holds another one unchanged, followed by copies of what its nodes stand
for. -/
structure GrowsTo (a b : Arena) : Prop where
  size : a.size ≤ b.size
  kept : ∀ id, id < a.size → b.node id = a.node id
  copied : ∀ id, a.size ≤ id → id < b.size →
    ∃ k, k < a.size ∧ (b.node id).origin = some (a.source k)

variable {a b c : Arena}

theorem GrowsTo.refl (a : Arena) : a.GrowsTo a :=
  ⟨Nat.le_refl _, fun _ _ => rfl, fun _ h h' => absurd h' (Nat.not_lt_of_le h)⟩

theorem GrowsTo.source_eq (h : a.GrowsTo b) {id : NodeId} (hid : id < a.size) :
    b.source id = a.source id := by
  rw [source, source, h.kept id hid]

/-- Every node stands for what some node did before. -/
theorem GrowsTo.exists_source (h : a.GrowsTo b) {id : NodeId} (hid : id < b.size) :
    ∃ k, k < a.size ∧ b.source id = a.source k := by
  rcases Nat.lt_or_ge id a.size with hlt | hge
  · exact ⟨id, hlt, h.source_eq hlt⟩
  · obtain ⟨k, hk, horigin⟩ := h.copied id hge hid
    exact ⟨k, hk, by rw [source, Node.source, horigin]; rfl⟩

theorem GrowsTo.trans (h : a.GrowsTo b) (h' : b.GrowsTo c) : a.GrowsTo c := by
  refine ⟨Nat.le_trans h.size h'.size, fun id hid => ?_, fun id hge hlt => ?_⟩
  · rw [h'.kept id (Nat.lt_of_lt_of_le hid h.size), h.kept id hid]
  · rcases Nat.lt_or_ge id b.size with hb | hb
    · rw [h'.kept id hb]
      exact h.copied id hge hb
    · obtain ⟨k, hk, horigin⟩ := h'.copied id hb hlt
      obtain ⟨j, hj, hsource⟩ := h.exists_source hk
      exact ⟨j, hj, by rw [horigin, hsource]⟩

/-- Where no node is a copy at first, a node stands for one of those there at first. -/
theorem GrowsTo.source_lt (h : a.GrowsTo b) (ha : a.IsWritten) {id : NodeId} (hid : id < b.size) :
    b.source id < a.size := by
  obtain ⟨k, hk, hsource⟩ := h.exists_source hid
  rwa [hsource, ha.source]

theorem GrowsTo.origin_source (h : a.GrowsTo b) (ha : a.IsWritten) {id : NodeId}
    (hid : id < b.size) : (b.node (b.source id)).origin = none := by
  rw [h.kept _ (h.source_lt ha hid)]
  exact (ha _).origin

/-! ### Changes of copies -/

theorem GrowsTo.add (h : a.GrowsTo b) {n : Node} {k : NodeId} (hk : k < a.size)
    (hn : n.origin = some (a.source k)) : a.GrowsTo (b.add n) := by
  refine ⟨by rw [size_add]; exact Nat.le_succ_of_le h.size, fun id hid => ?_, fun id hge hlt => ?_⟩
  · rw [node_add_of_lt b n (Nat.lt_of_lt_of_le hid h.size)]
    exact h.kept id hid
  · rw [size_add] at hlt
    rcases Nat.lt_or_eq_of_le (Nat.le_of_lt_succ hlt) with hb | rfl
    · rw [node_add_of_lt b n hb]
      exact h.copied id hge hb
    · rw [node_add_size, Node.origin_withoutChildren]
      exact ⟨k, hk, hn⟩

theorem origin_addChild (a : Arena) (parent child id : NodeId) :
    ((a.addChild parent child).node id).origin = (a.node id).origin := by
  rcases a.node_addChild_or parent child id with heq | heq
  · rw [heq]
  · rw [heq, Node.origin_mapElement]

theorem origin_updateElement (a : Arena) (id other : NodeId) (f : Element → Element)
    (hf : ∀ e, (f e).children = e.children) :
    ((a.updateElement id f hf).node other).origin = (a.node other).origin := by
  by_cases hother : other = id
  · subst hother
    rw [node_updateElement_self, Node.origin_mapElement]
  · rw [node_updateElement_of_ne a f hf hother]

theorem GrowsTo.addChild (h : a.GrowsTo b) {parent : NodeId} (hparent : a.size ≤ parent)
    (child : NodeId) : a.GrowsTo (b.addChild parent child) := by
  refine ⟨by rw [size_addChild]; exact h.size, fun id hid => ?_, fun id hge hlt => ?_⟩
  · rw [node_addChild_of_ne b child (Nat.ne_of_lt (Nat.lt_of_lt_of_le hid hparent))]
    exact h.kept id hid
  · rw [size_addChild] at hlt
    rw [origin_addChild]
    exact h.copied id hge hlt

theorem GrowsTo.updateElement (h : a.GrowsTo b) {id : NodeId} (hid : a.size ≤ id)
    (f : Element → Element) (hf : ∀ e, (f e).children = e.children) :
    a.GrowsTo (b.updateElement id f hf) := by
  refine ⟨by rw [size_updateElement]; exact h.size, fun i hi => ?_, fun i hge hlt => ?_⟩
  · rw [node_updateElement_of_ne b f hf (Nat.ne_of_lt (Nat.lt_of_lt_of_le hi hid))]
    exact h.kept i hi
  · rw [size_updateElement] at hlt
    rw [origin_updateElement]
    exact h.copied i hge hlt

end Arena

/-! ### Trees of an arena -/

namespace Tree

mutual

/-- Whether the nodes of a tree are those of an arena. -/
def StandsIn (a : Arena) : Tree → Prop
  | node id content children => id < a.size ∧ a.node id = content ∧ AllStandIn a children

/-- Whether several trees stand in an arena. -/
def AllStandIn (a : Arena) : List Tree → Prop
  | [] => True
  | tree :: rest => tree.StandsIn a ∧ AllStandIn a rest

end

variable {a b : Arena}

theorem allStandIn_iff {trees : List Tree} :
    AllStandIn a trees ↔ ∀ tree ∈ trees, tree.StandsIn a := by
  induction trees with
  | nil => simp [AllStandIn]
  | cons tree rest ih => simp [AllStandIn, ih]

theorem StandsIn.id_lt {tree : Tree} (h : tree.StandsIn a) : tree.id < a.size := by
  obtain ⟨id, content, children⟩ := tree
  exact h.1

theorem StandsIn.source {tree : Tree} (h : tree.StandsIn a) :
    tree.content.source tree.id = a.source tree.id := by
  obtain ⟨id, content, children⟩ := tree
  obtain ⟨-, rfl, -⟩ := h
  rfl

mutual

theorem StandsIn.mono (hgrows : a.GrowsTo b) :
    ∀ {tree : Tree}, tree.StandsIn a → tree.StandsIn b
  | .node id _ _, h =>
      ⟨Nat.lt_of_lt_of_le h.1 hgrows.size, (hgrows.kept id h.1).trans h.2.1,
        AllStandIn.mono hgrows h.2.2⟩

theorem AllStandIn.mono (hgrows : a.GrowsTo b) :
    ∀ {trees : List Tree}, AllStandIn a trees → AllStandIn b trees
  | [], _ => trivial
  | _ :: _, h => ⟨StandsIn.mono hgrows h.1, AllStandIn.mono hgrows h.2⟩

end

end Tree

namespace Arena

variable {a b : Arena}

theorem standsIn_tree {id : NodeId} (hid : id < a.size) : (a.tree id).StandsIn a := by
  rw [tree_eq]
  refine ⟨hid, rfl, Tree.allStandIn_iff.2 fun tree htree => ?_⟩
  obtain ⟨c, hc, rfl⟩ := List.mem_map.1 htree
  have hbounds := a.children_bounds hc
  exact standsIn_tree hbounds.2
termination_by a.size - id
decreasing_by omega

/-! ### Copies of subtrees -/

mutual

theorem GrowsTo.copyTree : ∀ {b : Arena} (parent : Option NodeId) {tree : Tree},
    a.GrowsTo b → tree.StandsIn a → a.GrowsTo (b.copyTree parent tree)
  | b, parent, .node id content children, h, ⟨hid, hcontent, hchildren⟩ => by
      subst hcontent
      rw [Arena.copyTree]
      exact GrowsTo.copyTrees h.size (h.add hid (congrArg some (Node.source_mapElement ..)))
        hchildren

theorem GrowsTo.copyTrees : ∀ {b : Arena} {parent : NodeId} {trees : List Tree},
    a.size ≤ parent → a.GrowsTo b → Tree.AllStandIn a trees →
      a.GrowsTo (b.copyTrees parent trees)
  | b, parent, [], _, h, _ => h
  | b, parent, tree :: rest, hparent, h, ⟨htree, hrest⟩ => by
      rw [Arena.copyTrees]
      -- The parent is a copy itself, so a node that is kept gets no child.
      have hcopy := (GrowsTo.copyTree (some parent) h htree).addChild hparent b.size
      exact GrowsTo.copyTrees hparent hcopy hrest

end

mutual

theorem size_lt_copyTree : ∀ (parent : Option NodeId) (a : Arena) (tree : Tree),
    a.size < (a.copyTree parent tree).size
  | parent, a, .node id content children => by
      rw [copyTree]
      refine Nat.lt_of_lt_of_le (Nat.lt_succ_self _) ?_
      rw [Nat.succ_eq_add_one, ← size_add]
      exact size_le_copyTrees _ _ children

theorem size_le_copyTrees : ∀ (parent : NodeId) (a : Arena) (trees : List Tree),
    a.size ≤ (a.copyTrees parent trees).size
  | parent, a, [] => Nat.le_refl _
  | parent, a, tree :: rest => by
      refine Nat.le_trans (Nat.le_of_lt (size_lt_copyTree (some parent) a tree)) ?_
      rw [← size_addChild _ parent a.size]
      exact size_le_copyTrees parent _ rest

end

theorem growsTo_copySubtree {id : NodeId} (hid : id < a.size) (overrides : List Attribute) :
    a.GrowsTo (a.copySubtree id overrides) :=
  ((GrowsTo.refl a).copyTree _ (standsIn_tree hid)).updateElement (Nat.le_refl _) _ _

theorem size_lt_copySubtree (a : Arena) (id : NodeId) (overrides : List Attribute) :
    a.size < (a.copySubtree id overrides).size := by
  rw [copySubtree, size_updateElement]
  exact size_lt_copyTree _ _ _

end Arena

end PatternMarkup
