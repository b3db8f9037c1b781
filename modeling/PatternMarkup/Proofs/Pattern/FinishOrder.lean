import Mathlib.Data.List.Nodup
import PatternMarkup.Pattern.Cycle
/-!
The order in which a search for cycles leaves the nodes of a graph. Not every node on a cycle is in
one that the search reports; but a node that is in none leads only to nodes that were left before
it. So without the nodes of the reported cycles the graph has no cycle.
-/

namespace PatternMarkup

namespace CycleSearch

/-- A cycle that was found goes through the node. -/
def Cuts (s : CycleSearch) (node : Nat) : Prop := ∃ cycle ∈ s.cycles, node ∈ cycle

/-- Where a search stands that has entered the nodes of `path` and has left those of `left`, in
both of which the last node is the first. A node that was left and is on no cycle leads to nodes
that were left before it. -/
structure Leaves (edges : Nat → List Nat) (nodes path left : List Nat) (s : CycleSearch) :
    Prop where
  cover : ∀ v ∈ nodes, v ∈ s.unentered ∨ v ∈ path ∨ v ∈ left
  fresh : ∀ v ∈ s.unentered, v ∉ path ++ left
  distinct : (path ++ left).Nodup
  ordered : ∀ after v before, left = after ++ v :: before → ¬ s.Cuts v →
    ∀ w ∈ edges v, w ∈ nodes → w ∈ before

variable {edges : Nat → List Nat} {nodes path left : List Nat} {s t : CycleSearch}

theorem Cuts.mono {node : Nat} (h : s.Cuts node) (hst : s.cycles <+: t.cycles) : t.Cuts node := by
  obtain ⟨cycle, hcycle, hnode⟩ := h
  exact ⟨cycle, hst.mem hcycle, hnode⟩

theorem cycles_close_prefix (s : CycleSearch) (path : List Nat) (node : Nat) :
    s.cycles <+: (s.close path node).cycles := by
  unfold close
  split
  · exact List.prefix_append _ _
  · exact List.prefix_rfl

/-- An edge back to a node of the path closes a cycle through the last node of the path. -/
theorem cuts_close {last node : Nat} (hnode : node ∈ last :: path) :
    (s.close (last :: path) node).Cuts last := by
  rw [close, if_pos hnode]
  refine ⟨_, List.mem_append_right _ (List.mem_singleton.mpr rfl), ?_⟩
  by_cases hlast : last = node
  · exact hlast ▸ List.mem_cons_self
  · refine List.mem_cons_of_mem _ (List.mem_reverse.mpr ?_)
    rw [List.takeWhile_cons_of_pos (by simpa using hlast)]
    exact List.mem_cons_self

theorem Leaves.enter {next : Nat} (h : Leaves edges nodes path left s)
    (hnext : next ∈ s.unentered) : Leaves edges nodes (next :: path) left (s.enter next) where
  cover v hv := by
    by_cases hvn : v = next
    · exact .inr (.inl (hvn ▸ List.mem_cons_self))
    · rcases h.cover v hv with hu | hp | hl
      · exact .inl (List.mem_filter.mpr ⟨hu, by simpa using hvn⟩)
      · exact .inr (.inl (List.mem_cons_of_mem _ hp))
      · exact .inr (.inr hl)
  fresh v hv := by
    obtain ⟨hu, hvn⟩ := List.mem_filter.mp hv
    rw [List.cons_append, List.mem_cons]
    rintro (rfl | hmem)
    · simp at hvn
    · exact h.fresh v hu hmem
  distinct := List.nodup_cons.mpr ⟨h.fresh next hnext, h.distinct⟩
  ordered := h.ordered

theorem Leaves.close (h : Leaves edges nodes path left s) (next : Nat) :
    Leaves edges nodes path left (s.close path next) where
  cover := by
    rw [unentered_close]
    exact h.cover
  fresh := by
    rw [unentered_close]
    exact h.fresh
  distinct := h.distinct
  ordered after v before hsplit hv :=
    h.ordered after v before hsplit fun hcuts => hv (hcuts.mono (s.cycles_close_prefix path next))

/-- The last node of the path may be left, once the nodes it leads to are left or a cycle through
it is found. -/
theorem Leaves.leave {last : Nat} (h : Leaves edges nodes (last :: path) left s)
    (hlast : ∀ w ∈ edges last, w ∈ nodes → w ∈ left ∨ s.Cuts last) :
    Leaves edges nodes path (last :: left) s where
  cover v hv := by
    rcases h.cover v hv with hu | hp | hl
    · exact .inl hu
    · rcases List.mem_cons.mp hp with rfl | hp
      · exact .inr (.inr List.mem_cons_self)
      · exact .inr (.inl hp)
    · exact .inr (.inr (List.mem_cons_of_mem _ hl))
  fresh v hv hmem := h.fresh v hv (List.perm_middle.mem_iff.mp hmem)
  distinct := List.perm_middle.nodup_iff.mpr h.distinct
  ordered after v before hsplit hv w hw hnode := by
    cases after with
    | nil =>
        obtain ⟨rfl, rfl⟩ := List.cons.inj hsplit
        exact (hlast w hw hnode).resolve_right hv
    | cons _ after => exact h.ordered after v before (List.cons.inj hsplit).2 hv w hw hnode

/-- Following edges from the last node of the path leaves the nodes they lead to, unless an edge
closes a cycle through that node. -/
theorem Leaves.follow (nexts : List Nat) (h : Leaves edges nodes path left s) :
    ∃ left', left <:+ left' ∧
      Leaves edges nodes path left' (CycleSearch.follow edges path s nexts).1 ∧
      s.cycles <+: (CycleSearch.follow edges path s nexts).1.cycles ∧
      ∀ w ∈ nexts, w ∈ nodes → w ∈ left' ∨
        ∃ last ∈ path.head?, (CycleSearch.follow edges path s nexts).1.Cuts last := by
  fun_induction CycleSearch.follow edges path s nexts generalizing left with
  | case1 path s => exact ⟨left, List.suffix_rfl, h, List.prefix_rfl, nofun⟩
  | case2 path s next rest hnext hlt inner hinner outer ihInner ihOuter =>
      obtain ⟨inside, hleft, hinside, hcycles, hedges⟩ := ihInner (h.enter hnext)
      have hleave := hinside.leave fun w hw hnode => (hedges w hw hnode).imp_right <| by
        rintro ⟨last, hlast, hcuts⟩
        obtain rfl : next = last := by simpa using hlast
        exact hcuts
      obtain ⟨after, hafter, hlater, hmore, hrest⟩ := ihOuter hleave
      refine ⟨after, ?_, hlater, hcycles.trans hmore, fun w hw hnode => ?_⟩
      · exact (hleft.trans (List.suffix_cons next inside)).trans hafter
      · rcases List.mem_cons.mp hw with rfl | hw
        · exact .inl (hafter.mem List.mem_cons_self)
        · exact hrest w hw hnode
  | case3 path s next rest hnext hclose outer =>
      rename_i ih
      obtain ⟨after, hafter, hlater, hcycles, hrest⟩ := ih (h.close next)
      refine ⟨after, hafter, hlater, (s.cycles_close_prefix path next).trans hcycles,
        fun w hw hnode => ?_⟩
      rcases List.mem_cons.mp hw with rfl | hw
      · rcases (h.cover w hnode).resolve_left hnext with hpath | hleft
        · cases path with
          | nil => cases hpath
          | cons last path => exact .inr ⟨last, rfl, (cuts_close hpath).mono hcycles⟩
        · exact .inl (hafter.mem hleft)
      · exact hrest w hw hnode

end CycleSearch

/-- The nodes of a graph have an order in which a node that is in no reported cycle leads only to
nodes before it. -/
theorem exists_rank_of_cyclesOf (edges : List (List Nat)) :
    ∃ rank : Nat → Nat, ∀ v < edges.length, (∀ cycle ∈ cyclesOf edges, v ∉ cycle) →
      ∀ w ∈ edges.getD v [], w < edges.length → rank w < rank v := by
  let nodes := List.range edges.length
  have hstart : CycleSearch.Leaves (fun node => edges.getD node []) nodes [] [] ⟨nodes, []⟩ :=
    ⟨fun v hv => .inl hv, nofun, List.nodup_nil, fun after v before hsplit => by simp at hsplit⟩
  obtain ⟨left, -, hleft, -, hall⟩ := hstart.follow nodes
  refine ⟨left.reverse.idxOf, fun v hv hcycles w hw hlt => ?_⟩
  have hmem : v ∈ left := by
    refine (hall v (List.mem_range.mpr hv) (List.mem_range.mpr hv)).resolve_right ?_
    rintro ⟨last, hlast, -⟩
    cases hlast
  obtain ⟨after, before, rfl⟩ := List.append_of_mem hmem
  have hbefore : w ∈ before := by
    refine hleft.ordered after v before rfl ?_ w hw (List.mem_range.mpr hlt)
    rintro ⟨cycle, hcycle, hin⟩
    exact hcycles cycle hcycle hin
  have hfresh : v ∉ before := by
    have hdistinct := hleft.distinct
    rw [List.nil_append, List.nodup_append, List.nodup_cons] at hdistinct
    exact hdistinct.2.1.1
  simp only [List.reverse_append, List.reverse_cons, List.append_assoc]
  rw [List.idxOf_append_of_mem (List.mem_reverse.mpr hbefore),
    List.idxOf_append_of_notMem (by simpa using hfresh)]
  exact Nat.lt_of_lt_of_le (List.idxOf_lt_length_of_mem (List.mem_reverse.mpr hbefore))
    (Nat.le_add_right _ _)

/-- The last node lies on a cycle too, but on none that is reported. -/
example : cyclesOf [[1], [2, 3], [0], [2]] = [[0, 1, 2]] := by
  cbv

end PatternMarkup
