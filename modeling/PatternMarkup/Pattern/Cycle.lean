/-!
Cycles of a finite graph, found by following edges as long as they lead to nodes that were not
entered before. Every cycle is found once, from the edge that closes it.
-/

namespace PatternMarkup

/-- How far a search has come: the nodes not entered yet, and the cycles found. -/
structure CycleSearch where
  unentered : List Nat
  cycles : List (List Nat)
deriving Repr, Inhabited

namespace CycleSearch

/-- Marks a node as entered. -/
def enter (s : CycleSearch) (node : Nat) : CycleSearch :=
  { s with unentered := s.unentered.filter (· != node) }

/-- Records the cycle that an edge to a node of the path closes. The path leads from the last
node to the first. -/
def close (s : CycleSearch) (path : List Nat) (node : Nat) : CycleSearch :=
  if node ∈ path then
    { s with cycles := s.cycles ++ [node :: (path.takeWhile (· != node)).reverse] }
  else s

theorem length_enter_lt {s : CycleSearch} {node : Nat} (h : node ∈ s.unentered) :
    (s.enter node).unentered.length < s.unentered.length :=
  List.length_filter_lt_length_iff_exists.2 ⟨node, h, by simp⟩

theorem unentered_close (s : CycleSearch) (path : List Nat) (node : Nat) :
    (s.close path node).unentered = s.unentered := by
  unfold close
  split <;> rfl

/-- Follows edges to the given nodes, from the last node of the path. -/
def follow (edges : Nat → List Nat) (path : List Nat) (s : CycleSearch) :
    (nexts : List Nat) → { t : CycleSearch // t.unentered.length ≤ s.unentered.length }
  | [] => ⟨s, Nat.le_refl _⟩
  | next :: rest =>
      if h : next ∈ s.unentered then
        have hlt := length_enter_lt h
        let inner := follow edges (next :: path) (s.enter next) (edges next)
        have hinner := Nat.lt_of_le_of_lt inner.2 hlt
        let outer := follow edges path inner.1 rest
        ⟨outer.1, Nat.le_trans outer.2 (Nat.le_of_lt hinner)⟩
      else
        have hclose : (s.close path next).unentered = s.unentered := s.unentered_close path next
        let outer := follow edges path (s.close path next) rest
        ⟨outer.1, hclose ▸ outer.2⟩
termination_by nexts => (s.unentered.length, nexts.length)
decreasing_by
  · exact Prod.Lex.left _ _ hlt
  · exact Prod.Lex.left _ _ hinner
  · rw [hclose]
    exact Prod.Lex.right _ (by simp)

end CycleSearch

/-- The cycles of a graph whose nodes are the numbers below `edges.length`. -/
def cyclesOf (edges : List (List Nat)) : List (List Nat) :=
  let nodes := List.range edges.length
  (CycleSearch.follow (fun node => edges.getD node []) [] ⟨nodes, []⟩ nodes).1.cycles

end PatternMarkup
