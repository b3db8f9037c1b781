import Mathlib.Algebra.Order.BigOperators.Group.List
import Mathlib.Algebra.Order.Group.Nat
import Mathlib.Data.List.Chain
import PatternMarkup.Proofs.Pattern.FinishOrder
/-!
What a search for cycles reports. The path of a search leads from each of its nodes to the next, so
an edge back to it closes a simple cycle of the graph. Nothing is reported exactly where the graph
has no cycle, and without the nodes of the reported cycles it has none.
-/

namespace PatternMarkup

/-- An edge leads from one node to another. -/
def LeadsTo (edges : Nat → List Nat) (v w : Nat) : Prop := w ∈ edges v

/-- No node can be reached again from itself. -/
def IsAcyclic (leads : Nat → Nat → Prop) : Prop := ∀ v, ¬ Relation.TransGen leads v v

/-- Nodes without repetition, each of which leads to the next and the last of which leads to the
first. -/
structure IsSimpleCycle (edges : Nat → List Nat) (cycle : List Nat) : Prop where
  nonempty : cycle ≠ []
  distinct : cycle.Nodup
  joined : cycle.IsChain (LeadsTo edges)
  closed : LeadsTo edges (cycle.getLast nonempty) (cycle.head nonempty)

variable {edges : Nat → List Nat}

theorem IsSimpleCycle.not_isAcyclic {cycle : List Nat} (h : IsSimpleCycle edges cycle) :
    ¬ IsAcyclic (LeadsTo edges) := by
  have hreach := List.relationReflTransGen_of_exists_isChain cycle h.joined h.nonempty
  exact fun hacyclic => hacyclic _ (.tail' hreach h.closed)

namespace CycleSearch

/-- Where a search stands whose path leads, from the last node to the first, along edges and
through entered nodes only, and which has reported simple cycles only. -/
structure Walks (edges : Nat → List Nat) (path : List Nat) (s : CycleSearch) : Prop where
  joined : path.IsChain fun v w => LeadsTo edges w v
  distinct : path.Nodup
  entered : ∀ v ∈ path, v ∉ s.unentered
  simple : ∀ cycle ∈ s.cycles, IsSimpleCycle edges cycle

variable {path nexts : List Nat} {s : CycleSearch}

theorem Walks.enter {next : Nat} (h : Walks edges path s) (hnext : next ∈ s.unentered)
    (hlead : ∀ last ∈ path.head?, LeadsTo edges last next) :
    Walks edges (next :: path) (s.enter next) where
  joined := List.isChain_cons.mpr ⟨hlead, h.joined⟩
  distinct := List.nodup_cons.mpr ⟨fun hmem => h.entered next hmem hnext, h.distinct⟩
  entered v hv hu := by
    obtain ⟨hu, hne⟩ := List.mem_filter.mp hu
    rcases List.mem_cons.mp hv with rfl | hv
    · simp at hne
    · exact h.entered v hv hu
  simple := h.simple

theorem Walks.leave {last : Nat} (h : Walks edges (last :: path) s) : Walks edges path s where
  joined := h.joined.tail
  distinct := h.distinct.of_cons
  entered v hv := h.entered v (List.mem_cons_of_mem _ hv)
  simple := h.simple

/-- The part of the path that an edge from its last node closes. -/
theorem isSimpleCycle_of_path {next : Nat} (hjoined : path.IsChain fun v w => LeadsTo edges w v)
    (hdistinct : path.Nodup) (hlead : ∀ last ∈ path.head?, LeadsTo edges last next)
    (hnext : next ∈ path) :
    IsSimpleCycle edges (next :: (path.takeWhile (· != next)).reverse) := by
  obtain ⟨after, before, rfl, hafter⟩ := List.eq_append_cons_of_mem hnext
  have htake : (after ++ next :: before).takeWhile (· != next) = after := by
    rw [List.takeWhile_append_of_pos (by simpa using fun v hv => ne_of_mem_of_not_mem hv hafter),
      List.takeWhile_cons_of_neg (by simp), List.append_nil]
  have hprefix : after ++ [next] <+: after ++ next :: before :=
    (List.prefix_append_right_inj after).mpr (List.prefix_append [next] before)
  have hcycle : next :: after.reverse = (after ++ [next]).reverse := by
    rw [List.reverse_append, List.reverse_singleton, List.singleton_append]
  rw [htake, hcycle]
  have hne : after ++ [next] ≠ [] := List.append_ne_nil_of_right_ne_nil _ (List.cons_ne_nil _ _)
  have hchain := List.IsChain.prefix hjoined hprefix
  refine ⟨List.reverse_ne_nil_iff.mpr hne,
    List.nodup_reverse.mpr (hdistinct.sublist hprefix.sublist),
    List.isChain_reverse.mpr hchain, ?_⟩
  rw [List.getLast_reverse, List.head_reverse, List.getLast_append_singleton]
  refine hlead _ ?_
  cases after <;> rfl

theorem Walks.close {next : Nat} (h : Walks edges path s)
    (hlead : ∀ last ∈ path.head?, LeadsTo edges last next) :
    Walks edges path (s.close path next) where
  joined := h.joined
  distinct := h.distinct
  entered := by
    rw [unentered_close]
    exact h.entered
  simple cycle hcycle := by
    rw [CycleSearch.close] at hcycle
    split at hcycle
    · rename_i hnext
      rcases List.mem_append.mp hcycle with hold | hnew
      · exact h.simple cycle hold
      · rw [List.mem_singleton.mp hnew]
        exact isSimpleCycle_of_path h.joined h.distinct hlead hnext
    · exact h.simple cycle hcycle

/-- Following edges from the last node of the path reports simple cycles only. -/
theorem Walks.follow (h : Walks edges path s)
    (hnexts : ∀ last ∈ path.head?, ∀ next ∈ nexts, LeadsTo edges last next) :
    Walks edges path (CycleSearch.follow edges path s nexts).1 := by
  fun_induction CycleSearch.follow edges path s nexts with
  | case1 => exact h
  | case2 path s next rest hnext hlt inner hinner outer ihInner ihOuter =>
      have henter := h.enter hnext fun last hlast => hnexts last hlast next List.mem_cons_self
      have hinside := ihInner henter fun last hlast w hw => by
        obtain rfl : next = last := by simpa using hlast
        exact hw
      exact ihOuter hinside.leave fun last hlast w hw =>
        hnexts last hlast w (List.mem_cons_of_mem _ hw)
  | case3 path s next rest hnext hclose outer =>
      rename_i ih
      exact ih (h.close fun last hlast => hnexts last hlast next List.mem_cons_self)
        fun last hlast w hw => hnexts last hlast w (List.mem_cons_of_mem _ hw)

/-! ### The number of reports -/

/-- The number of edges that leave some nodes. -/
def edgesFrom (edges : Nat → List Nat) (nodes : List Nat) : Nat :=
  (nodes.flatMap edges).length

theorem edgesFrom_filter_le {next : Nat} {nodes : List Nat} (h : next ∈ nodes) :
    edgesFrom edges (nodes.filter (· != next)) + (edges next).length ≤ edgesFrom edges nodes := by
  obtain ⟨before, after, rfl⟩ := List.append_of_mem h
  have hsub : ∀ l : List Nat, edgesFrom edges (l.filter (· != next)) ≤ edgesFrom edges l :=
    fun l => by
      simp only [edgesFrom, List.length_flatMap]
      exact (List.filter_sublist.map _).sum_le_sum fun _ _ => Nat.zero_le _
  have hbefore := hsub before
  have hafter := hsub after
  simp only [edgesFrom, List.filter_append, List.filter_cons_of_neg, bne_self_eq_false,
    Bool.false_eq_true, not_false_eq_true, List.flatMap_append, List.flatMap_cons,
    List.length_append] at hbefore hafter ⊢
  omega

theorem length_cycles_close_le (s : CycleSearch) (last : Nat) (path : List Nat) (next : Nat) :
    (s.close (last :: path) next).cycles.length ≤ s.cycles.length + 1 := by
  unfold close
  split
  · exact (List.length_append).le
  · exact Nat.le_succ _

/-- Every edge is followed once at most, and closes one cycle at most. -/
theorem length_cycles_follow_le (edges : Nat → List Nat) (path : List Nat) (s : CycleSearch)
    (nexts : List Nat) :
    (follow edges path s nexts).1.cycles.length +
        edgesFrom edges (follow edges path s nexts).1.unentered ≤
      s.cycles.length + edgesFrom edges s.unentered + (if path = [] then 0 else nexts.length) := by
  fun_induction CycleSearch.follow edges path s nexts with
  | case1 => exact Nat.le_add_right _ _
  | case2 path s next rest hnext hlt inner hinner outer ihInner ihOuter =>
      have hcount : edgesFrom edges (s.unentered.filter (· != next)) + (edges next).length ≤
          edgesFrom edges s.unentered := edgesFrom_filter_le hnext
      rw [if_neg (List.cons_ne_nil _ _)] at ihInner
      have hinside : inner.1.cycles.length + edgesFrom edges inner.1.unentered ≤ s.cycles.length +
          edgesFrom edges (s.unentered.filter (· != next)) + (edges next).length := ihInner
      have houtside : outer.1.cycles.length + edgesFrom edges outer.1.unentered ≤
          inner.1.cycles.length + edgesFrom edges inner.1.unentered +
            (if path = [] then 0 else rest.length) := ihOuter
      have hrest : (if path = [] then 0 else rest.length) ≤
          if path = [] then 0 else (next :: rest).length := by
        split
        · exact Nat.le_refl 0
        · exact Nat.le_succ _
      change outer.1.cycles.length + edgesFrom edges outer.1.unentered ≤ _
      omega
  | case3 path s next rest hnext hclose outer =>
      rename_i ih
      refine Nat.le_trans ih ?_
      rw [hclose]
      cases path with
      | nil => simp [close]
      | cons last path =>
          have hclosed := s.length_cycles_close_le last path next
          simp only [List.cons_ne_nil, if_false, List.length_cons]
          omega

end CycleSearch

/-- The nodes that a node of a graph leads to. -/
def targetsOf (edges : List (List Nat)) (v : Nat) : List Nat := edges.getD v []

theorem isSimpleCycle_of_mem_cyclesOf {edges : List (List Nat)} {cycle : List Nat}
    (h : cycle ∈ cyclesOf edges) : IsSimpleCycle (targetsOf edges) cycle := by
  have hstart : CycleSearch.Walks (targetsOf edges) [] ⟨List.range edges.length, []⟩ :=
    ⟨List.isChain_nil, List.nodup_nil, nofun, nofun⟩
  exact (hstart.follow nofun).simple cycle h

/-- Only nodes of the graph lead anywhere. -/
theorem lt_length_of_leadsTo {edges : List (List Nat)} {v w : Nat}
    (h : LeadsTo (targetsOf edges) v w) : v < edges.length := by
  by_contra hv
  rw [LeadsTo, targetsOf, List.getD_eq_getElem?_getD,
    List.getElem?_eq_none (Nat.le_of_not_lt hv)] at h
  cases h

/-- Edges along which a rank falls, as long as they lead on, close no cycle. -/
theorem isAcyclic_of_rank {leads : Nat → Nat → Prop} (rank : Nat → Nat)
    (h : ∀ u v w, leads u v → leads v w → rank v < rank u) : IsAcyclic leads := by
  have hfall : ∀ u v, Relation.TransGen leads u v → ∀ w, leads v w → rank v < rank u := by
    intro u v hreach
    induction hreach with
    | single hlead => exact fun w => h u _ w hlead
    | tail _ hlead ih => exact fun w hw => Nat.lt_trans (h _ _ w hlead hw) (ih _ hlead)
  intro v hcycle
  obtain ⟨w, hlead, -⟩ := Relation.TransGen.head'_iff.mp hcycle
  exact Nat.lt_irrefl _ (hfall v v hcycle w hlead)

/-- A node occurs in a reported cycle. -/
def IsOnReported (edges : List (List Nat)) (v : Nat) : Prop := ∃ cycle ∈ cyclesOf edges, v ∈ cycle

/-- Without the nodes of the reported cycles a graph has no cycle. -/
theorem isAcyclic_unreported (edges : List (List Nat)) :
    IsAcyclic fun v w =>
      LeadsTo (targetsOf edges) v w ∧ ¬ IsOnReported edges v ∧ ¬ IsOnReported edges w := by
  obtain ⟨rank, hrank⟩ := exists_rank_of_cyclesOf edges
  refine isAcyclic_of_rank rank fun u v w hlead hnext => ?_
  exact hrank u (lt_length_of_leadsTo hlead.1)
    (fun cycle hcycle hmem => hlead.2.1 ⟨cycle, hcycle, hmem⟩) v hlead.1
    (lt_length_of_leadsTo hnext.1)

theorem cyclesOf_eq_nil_iff (edges : List (List Nat)) :
    cyclesOf edges = [] ↔ IsAcyclic (LeadsTo (targetsOf edges)) := by
  constructor
  · intro hnil v hcycle
    have hunreported : ∀ w, ¬ IsOnReported edges w := by
      rintro w ⟨cycle, hmem, -⟩
      rw [hnil] at hmem
      cases hmem
    exact isAcyclic_unreported edges v (Relation.TransGen.mono
      (fun u w hlead => ⟨hlead, hunreported u, hunreported w⟩) v v hcycle)
  · intro hacyclic
    refine List.eq_nil_iff_forall_not_mem.mpr fun cycle hcycle => ?_
    exact (isSimpleCycle_of_mem_cyclesOf hcycle).not_isAcyclic hacyclic

/-- Every cycle that is reported is closed by an edge of its own. -/
theorem length_cyclesOf_le (edges : List (List Nat)) :
    (cyclesOf edges).length ≤
      CycleSearch.edgesFrom (targetsOf edges) (List.range edges.length) := by
  have hfollow := CycleSearch.length_cycles_follow_le (targetsOf edges) []
    ⟨List.range edges.length, []⟩ (List.range edges.length)
  simp only [List.length_nil, if_true, Nat.zero_add, Nat.add_zero] at hfollow
  exact Nat.le_trans (Nat.le_add_right _ _) hfollow

/-- The search for cycles ends on every graph, with at most one report for an edge. What it reports
are simple cycles of the graph; it reports none exactly where the graph has none; and without the
nodes of the reported cycles the graph has none. -/
theorem cyclesOf_exact (edges : List (List Nat)) :
    (cyclesOf edges).length ≤
        CycleSearch.edgesFrom (targetsOf edges) (List.range edges.length) ∧
      (∀ cycle ∈ cyclesOf edges, IsSimpleCycle (targetsOf edges) cycle) ∧
      (cyclesOf edges = [] ↔ IsAcyclic (LeadsTo (targetsOf edges))) ∧
      IsAcyclic fun v w =>
        LeadsTo (targetsOf edges) v w ∧ ¬ IsOnReported edges v ∧ ¬ IsOnReported edges w :=
  ⟨length_cyclesOf_le edges, fun _ => isSimpleCycle_of_mem_cyclesOf, cyclesOf_eq_nil_iff edges,
    isAcyclic_unreported edges⟩

end PatternMarkup
