import PatternMarkup.Pattern.Usage
import PatternMarkup.Proofs.Markup.DeepCopies
/-!
What marking adds to a usage: the nodes and attributes that are marked, and whatever was marked
before stays.
-/

namespace PatternMarkup

/-- The element and the position at which an attribute was written. -/
def Attribute.key (a : Attribute) : NodeId × Nat := (a.owner, a.index)

/-- The attributes of a node; only elements have any. -/
def Arena.attributes (a : Arena) (id : NodeId) : List Attribute :=
  ((a.node id).element?.map (·.attributes)).getD []

namespace Usage

/-- The usage `v` holds what `u` holds, some nodes and some attributes. -/
structure Adds (u : Usage) (nodes : List NodeId) (keys : List (NodeId × Nat)) (v : Usage) :
    Prop where
  nodes : ∀ n, n ∈ v.nodes ↔ n ∈ u.nodes ∨ n ∈ nodes
  attributes : ∀ k, k ∈ v.attributes ↔ k ∈ u.attributes ∨ k ∈ keys

variable {u v w : Usage} {ids ids' : List NodeId} {keys keys' : List (NodeId × Nat)}

theorem Adds.refl (u : Usage) : u.Adds [] [] u := by
  constructor <;> simp

theorem Adds.trans (h : u.Adds ids keys v) (h' : v.Adds ids' keys' w) :
    u.Adds (ids ++ ids') (keys ++ keys') w := by
  constructor
  · intro n
    rw [h'.nodes, h.nodes, List.mem_append, or_assoc]
  · intro k
    rw [h'.attributes, h.attributes, List.mem_append, or_assoc]

theorem adds_markSource (u : Usage) (n : NodeId) : u.Adds [n] [] (u.markSource n) := by
  unfold markSource
  split
  · rename_i hmem
    have hmem : n ∈ u.nodes := List.contains_iff_mem.mp hmem
    constructor
    · intro m
      simp only [List.mem_singleton]
      exact ⟨.inl, fun h => h.elim id fun h => h ▸ hmem⟩
    · simp
  · constructor
    · intro m
      simp [or_comm]
    · simp

theorem adds_markAttribute (u : Usage) (a : Attribute) :
    u.Adds [] [a.key] (u.markAttribute a) := by
  unfold markAttribute
  simp only
  split
  · rename_i hmem
    have hmem : a.key ∈ u.attributes := List.contains_iff_mem.mp hmem
    constructor
    · simp
    · intro k
      simp only [List.mem_singleton]
      exact ⟨.inl, fun h => h.elim id fun h => h ▸ hmem⟩
  · constructor
    · simp
    · intro k
      simp [or_comm, Attribute.key]

theorem adds_markAttributes (attributes : List Attribute) (u : Usage) :
    u.Adds [] (attributes.map Attribute.key) (attributes.foldl markAttribute u) := by
  induction attributes generalizing u with
  | nil => exact .refl u
  | cons a attributes ih => exact (u.adds_markAttribute a).trans (ih _)

theorem adds_markWhole (u : Usage) (arena : Arena) (id : NodeId) :
    u.Adds [arena.source id] ((arena.attributes id).map Attribute.key)
      (u.markWhole id (arena.node id)) :=
  (u.adds_markSource _).trans (adds_markAttributes _ _)

theorem markTrees_eq (trees : List Tree) (u : Usage) :
    u.markTrees trees = trees.foldl markTree u := by
  induction trees generalizing u with
  | nil => rfl
  | cons tree rest ih => exact ih _

/-- Marking the tree at a node marks the descendants of the node one by one. -/
theorem markTree_tree (u : Usage) (arena : Arena) (id : NodeId) :
    u.markTree (arena.tree id)
      = (arena.descendants id).foldl (fun u d => u.markWhole d (arena.node d)) u := by
  rw [arena.descendants_eq, List.foldl_cons, List.foldl_flatMap, arena.tree_eq, markTree,
    markTrees_eq, List.foldl_map]
  refine List.foldl_ext _ _ _ fun u c hc => ?_
  have hbounds := arena.children_bounds hc
  exact markTree_tree u arena c
termination_by arena.size - id
decreasing_by omega

theorem adds_markSubtree (u : Usage) (arena : Arena) (id : NodeId) :
    u.Adds ((arena.descendants id).map arena.source)
      (((arena.descendants id).flatMap arena.attributes).map Attribute.key)
      (u.markSubtree arena id) := by
  rw [markSubtree, markTree_tree]
  generalize arena.descendants id = ids
  induction ids generalizing u with
  | nil => exact .refl u
  | cons d ids ih =>
      rw [List.foldl_cons, List.map_cons, List.flatMap_cons, List.map_append]
      exact (u.adds_markWhole arena d).trans (ih _)

/-! ### Growth -/

/-- The usage `v` holds what `u` holds. -/
structure GrowsTo (u v : Usage) : Prop where
  nodes : u.nodes ⊆ v.nodes
  attributes : u.attributes ⊆ v.attributes

theorem GrowsTo.refl (u : Usage) : u.GrowsTo u := ⟨List.Subset.refl _, List.Subset.refl _⟩

theorem GrowsTo.trans (h : u.GrowsTo v) (h' : v.GrowsTo w) : u.GrowsTo w :=
  ⟨fun _ hn => h'.nodes (h.nodes hn), fun _ hk => h'.attributes (h.attributes hk)⟩

theorem Adds.growsTo (h : u.Adds ids keys v) : u.GrowsTo v :=
  ⟨fun n hn => (h.nodes n).mpr (.inl hn), fun k hk => (h.attributes k).mpr (.inl hk)⟩

theorem growsTo_markWhole (u : Usage) (id : NodeId) (n : Node) : u.GrowsTo (u.markWhole id n) :=
  (u.adds_markSource _).growsTo.trans (adds_markAttributes _ _).growsTo

mutual

theorem growsTo_markTree : ∀ (u : Usage) (tree : Tree), u.GrowsTo (u.markTree tree)
  | u, .node id content children =>
      (u.growsTo_markWhole id content).trans (growsTo_markTrees _ children)

theorem growsTo_markTrees : ∀ (u : Usage) (trees : List Tree), u.GrowsTo (u.markTrees trees)
  | u, [] => .refl u
  | u, tree :: rest => (growsTo_markTree u tree).trans (growsTo_markTrees _ rest)

end

theorem GrowsTo.usesAttribute (h : u.GrowsTo v) {a : Attribute} (ha : u.usesAttribute a = true) :
    v.usesAttribute a = true :=
  List.contains_iff_mem.mpr (h.attributes (List.contains_iff_mem.mp ha))

theorem usesAttribute_markAttribute (u : Usage) (a : Attribute) :
    (u.markAttribute a).usesAttribute a = true :=
  List.contains_iff_mem.mpr (((u.adds_markAttribute a).attributes a.key).mpr
    (.inr (List.mem_singleton_self _)))

end Usage

end PatternMarkup
