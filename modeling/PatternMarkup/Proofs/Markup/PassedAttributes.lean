import PatternMarkup.Proofs.Markup.PrunedWalks
/-!
Attributes that elements have from elsewhere. In what a text was read as every attribute stands in
the element it was written in; a copy has besides them just those it was overridden with.
-/

namespace PatternMarkup

variable {x : Attribute}

/-! ### Nodes -/

namespace Node

/-- Whether a node, of the given number, has an attribute that was not written in the element the
node stands for. -/
def HasPassed (n : Node) (id : NodeId) (x : Attribute) : Prop :=
  ∃ e, n.element? = some e ∧ x ∈ e.attributes ∧ x.owner ≠ n.source id

theorem element?_mapElement (n : Node) (f : Element → Element) :
    (n.mapElement f).element? = n.element?.map f := by
  obtain ⟨kind, span, parent, origin⟩ := n
  cases kind <;> rfl

theorem HasPassed.of_mapElement {n : Node} {id : NodeId} {f : Element → Element}
    (h : (n.mapElement f).HasPassed id x) (hf : ∀ e, (f e).attributes = e.attributes) :
    n.HasPassed id x := by
  obtain ⟨e', he', hx, howner⟩ := h
  rw [element?_mapElement] at he'
  obtain ⟨e, he, rfl⟩ := Option.map_eq_some_iff.mp he'
  rw [hf] at hx
  rw [source_mapElement] at howner
  exact ⟨e, he, hx, howner⟩

end Node

theorem mem_of_mem_overrideAttribute {attributes : List Attribute} {o : Attribute}
    (h : x ∈ Arena.overrideAttribute attributes o) : x ∈ attributes ∨ x = o := by
  induction attributes with
  | nil => exact .inr (List.mem_singleton.mp h)
  | cons b rest ih =>
      rw [Arena.overrideAttribute] at h
      split at h
      · exact (List.mem_cons.mp h).symm.imp_left (List.mem_cons_of_mem b)
      · rcases List.mem_cons.mp h with rfl | h
        · exact .inl List.mem_cons_self
        · exact (ih h).imp_left (List.mem_cons_of_mem b)

theorem mem_of_mem_overrides {attributes overrides : List Attribute}
    (h : x ∈ overrides.foldl Arena.overrideAttribute attributes) :
    x ∈ attributes ∨ x ∈ overrides := by
  induction overrides generalizing attributes with
  | nil => exact .inl h
  | cons o rest ih =>
      rcases ih h with h | h
      · refine (mem_of_mem_overrideAttribute h).imp_right ?_
        rintro rfl
        exact List.mem_cons_self
      · exact .inr (List.mem_cons_of_mem o h)

/-! ### Arenas -/

namespace Arena

/-- Whether some element has an attribute that was not written in the element it stands for. -/
def HasPassed (a : Arena) (x : Attribute) : Prop := ∃ id, (a.node id).HasPassed id x

variable {a b base : Arena}

theorem HasPassed.of_add {n : Node} (h : (b.add n).HasPassed x) :
    b.HasPassed x ∨ n.HasPassed b.size x := by
  obtain ⟨id, h⟩ := h
  rcases Nat.lt_trichotomy id b.size with hlt | rfl | hgt
  · rw [node_add_of_lt b n hlt] at h
    exact .inl ⟨id, h⟩
  · rw [node_add_size] at h
    have h : (n.mapElement fun e => { e with children := [] }).HasPassed b.size x := h
    exact .inr (h.of_mapElement fun _ => rfl)
  · rw [node_of_size_le _ (by rw [size_add]; exact hgt)] at h
    obtain ⟨e, he, -⟩ := h
    cases he

theorem HasPassed.of_addChild {parent child : NodeId} (h : (b.addChild parent child).HasPassed x) :
    b.HasPassed x := by
  obtain ⟨id, h⟩ := h
  rcases b.node_addChild_or parent child id with heq | heq
  · exact ⟨id, heq ▸ h⟩
  · rw [heq] at h
    exact ⟨id, h.of_mapElement fun _ => rfl⟩

mutual

/-- The copy of a tree that was read has its own attributes only. -/
theorem HasPassed.of_copyTree (hbase : base.IsWritten) : ∀ {b : Arena} (parent : Option NodeId)
    {tree : Tree}, tree.StandsIn base → (b.copyTree parent tree).HasPassed x → b.HasPassed x
  | b, parent, .node id content children, ⟨_, hcontent, hchildren⟩, h => by
      subst hcontent
      rw [Arena.copyTree] at h
      rcases (HasPassed.of_copyTrees hbase hchildren h).of_add with h | ⟨e', he', hx, howner⟩
      · exact h
      · -- The copy stands for the node itself, where its attributes were written.
        have hsource : (base.node id).source id = id := hbase.source id
        have hmapped : ((base.node id).mapElement fun e => { e with endTag := none }).element?
            = some e' := he'
        rw [Node.element?_mapElement] at hmapped
        obtain ⟨e, he, rfl⟩ := Option.map_eq_some_iff.mp hmapped
        refine absurd ((hbase id).owner e he x hx) fun heq => howner ?_
        rw [heq, Node.source, Option.getD_some, Node.source_mapElement, hsource]

theorem HasPassed.of_copyTrees (hbase : base.IsWritten) : ∀ {b : Arena} {parent : NodeId}
    {trees : List Tree}, Tree.AllStandIn base trees →
      (b.copyTrees parent trees).HasPassed x → b.HasPassed x
  | b, parent, [], _, h => h
  | b, parent, tree :: rest, ⟨htree, hrest⟩, h => by
      rw [Arena.copyTrees] at h
      exact HasPassed.of_copyTree hbase (some parent) htree
        (HasPassed.of_copyTrees hbase hrest h).of_addChild

end

/-- What a copy of a node of the source has from elsewhere is what it was overridden with. -/
theorem HasPassed.of_copySubtree (hbase : base.IsWritten) (hgrows : base.GrowsTo a) {id : NodeId}
    (hid : id < base.size) {overrides : List Attribute}
    (h : (a.copySubtree id overrides).HasPassed x) : a.HasPassed x ∨ x ∈ overrides := by
  rw [copySubtree, hgrows.tree_eq hid] at h
  have hcopy : ((a.copyTree (a.node id).parent (base.tree id))).HasPassed x → a.HasPassed x :=
    HasPassed.of_copyTree hbase _ (standsIn_tree hid)
  generalize a.copyTree (a.node id).parent (base.tree id) = b at h hcopy
  obtain ⟨other, h⟩ := h
  by_cases hother : other = a.size
  · subst hother
    obtain ⟨e', he', hx, howner⟩ := h
    rw [node_updateElement_self, Node.element?_mapElement] at he'
    obtain ⟨e, he, rfl⟩ := Option.map_eq_some_iff.mp he'
    rw [node_updateElement_self, Node.source_mapElement] at howner
    exact (mem_of_mem_overrides hx).imp_left fun hx => hcopy ⟨a.size, e, he, hx, howner⟩
  · rw [node_updateElement_of_ne _ _ _ hother] at h
    exact .inl (hcopy ⟨other, h⟩)

end Arena

end PatternMarkup
