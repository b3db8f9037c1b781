import PatternMarkup.Proofs.Markup.NodeOrder
import PatternMarkup.Proofs.Markup.Tiling
/-!
Building a tree keeps its nodes in order. A token adds at most one node, after all others, to the
innermost open element or as the end tag of an open one, and leaves the other links as they are.
-/

namespace PatternMarkup

namespace Node

variable {n m : Node}

theorem span_of_withoutChildren (h : n.withoutChildren = m.withoutChildren) :
    n.span = m.span := by
  obtain ⟨kind, span, parent, origin⟩ := n
  obtain ⟨kind', span', parent', origin'⟩ := m
  cases kind <;> cases kind' <;> simp_all [withoutChildren, mapElement]

theorem parent_of_withoutChildren (h : n.withoutChildren = m.withoutChildren) :
    n.parent = m.parent := by
  obtain ⟨kind, span, parent, origin⟩ := n
  obtain ⟨kind', span', parent', origin'⟩ := m
  cases kind <;> cases kind' <;> simp_all [withoutChildren, mapElement]

theorem kind_endTag_of_withoutChildren (h : n.withoutChildren = m.withoutChildren) {name : String}
    (hm : m.kind = .endTag name) : n.kind = .endTag name := by
  obtain ⟨kind, span, parent, origin⟩ := n
  obtain ⟨kind', span', parent', origin'⟩ := m
  cases kind <;> cases kind' <;> simp_all [withoutChildren, mapElement]

theorem isEndTag_of_withoutChildren (h : n.withoutChildren = m.withoutChildren) :
    n.isEndTag = m.isEndTag := by
  obtain ⟨kind, span, parent, origin⟩ := n
  obtain ⟨kind', span', parent', origin'⟩ := m
  cases kind <;> cases kind' <;> simp_all [withoutChildren, mapElement, isEndTag]

theorem element_of_withoutChildren (h : n.withoutChildren = m.withoutChildren) {e : Element}
    (hm : m.kind = .element e) :
    ∃ e', n.kind = .element e' ∧ e'.name = e.name ∧ e'.endTag = e.endTag ∧
      e'.selfClosing = e.selfClosing := by
  obtain ⟨kind, span, parent, origin⟩ := n
  obtain ⟨kind', span', parent', origin'⟩ := m
  cases kind <;> cases kind' <;> simp_all [withoutChildren, mapElement]

theorem withoutChildren_append (n : Node) (ids : List NodeId) :
    (n.mapElement fun e => { e with children := e.children ++ ids }).withoutChildren =
      n.withoutChildren := by
  obtain ⟨kind, span, parent, origin⟩ := n
  cases kind <;> rfl

/-- Neither an end tag nor an element that has one or has children. -/
structure IsNew (n : Node) : Prop where
  isEndTag : n.isEndTag = false
  children : n.children = []
  endTag? : n.endTag? = none

end Node

namespace Arena

/-- The tree of a node without children and end tag. -/
theorem numbers_of_new {a : Arena} {id : NodeId} (h : (a.node id).IsNew) :
    (a.tree id).numbers = [id] := by
  rw [numbers_tree, children, h.children, h.endTag?]
  rfl

/-! ### A node more -/

/-- From `a` to `b` the node `n` is added at the end, as the last one with its parent. -/
structure Attaches (a : Arena) (topLevel : List NodeId) (n : Node) (b : Arena)
    (topLevel' : List NodeId) : Prop where
  size : b.size = a.size + 1
  node_size : b.node a.size = n
  kept : ∀ i < a.size, (b.node i).withoutChildren = (a.node i).withoutChildren
  node_of_ne : ∀ i < a.size, n.parent ≠ some i → b.node i = a.node i
  level_parent : b.level topLevel' n.parent = a.level topLevel n.parent ++ [a.size]
  level_of_ne : ∀ parent, parent ≠ n.parent → b.level topLevel' parent = a.level topLevel parent

variable {a b : Arena} {topLevel topLevel' : List NodeId} {n : Node}

theorem children_add (a : Arena) (n : Node) (id : NodeId) :
    (a.add n).children id = a.children id := by
  rcases Nat.lt_trichotomy id a.size with hid | rfl | hid
  · rw [children, node_add_of_lt a n hid, children]
  · rw [children, node_add_size, Node.children_withoutChildren,
      children_of_size_le a (Nat.le_refl _)]
  · rw [children_of_size_le a (Nat.le_of_lt hid),
      children_of_size_le _ (by rw [size_add]; exact hid)]

theorem attaches_add (hn : n.IsNew) (hparent : n.parent = none) :
    a.Attaches topLevel n (a.add n) (topLevel ++ [a.size]) where
  size := size_add a n
  node_size := (node_add_size a n).trans (Node.withoutChildren_of_children hn.children)
  kept i hi := by rw [node_add_of_lt a n hi]
  node_of_ne i hi _ := node_add_of_lt a n hi
  level_parent := by rw [hparent]; rfl
  level_of_ne parent hne := by
    cases parent with
    | none => exact absurd hparent.symm hne
    | some p => exact children_add a n p

theorem attaches_addBelow {p : NodeId} (hn : n.IsNew) (hparent : n.parent = some p)
    (hp : a.IsOpen p) : a.Attaches topLevel n (a.addBelow p n) topLevel := by
  obtain ⟨e, hkind, -, -⟩ := hp
  have hlt := a.lt_size_of_element hkind
  have hchildren : ∀ id, id ≠ p → (a.addBelow p n).children id = a.children id := by
    intro id hid
    rw [children, addBelow, node_addChild_of_ne _ _ hid, ← children, children_add]
  refine ⟨size_addBelow a p n, node_addBelow_size a hn.children hlt, ?_, ?_, ?_, ?_⟩
  · intro i hi
    by_cases hip : i = p
    · subst hip
      rw [node_addBelow_parent a n hlt, Node.withoutChildren_append]
    · rw [node_addBelow_of_ne a n hi hip]
  · intro i hi hne
    refine node_addBelow_of_ne a n hi ?_
    rintro rfl
    exact hne hparent
  · rw [hparent]
    simp only [level, children]
    rw [node_addBelow_parent a n hlt, Node.children, Node.kind_mapElement_of_element hkind,
      Node.children, hkind]
  · intro parent hne
    cases parent with
    | none => rfl
    | some id =>
        refine hchildren id ?_
        rintro rfl
        exact hne hparent.symm

theorem Attaches.linked (h : a.Attaches topLevel n b topLevel') (hn : n.IsNew)
    (hopen : ∀ p, n.parent = some p → a.IsOpen p) (ha : a.Linked topLevel) :
    b.Linked topLevel' := by
  have hlevel : ∀ parent c, c ∈ b.level topLevel' parent ↔
      c ∈ a.level topLevel parent ∨ parent = n.parent ∧ c = a.size := by
    intro parent c
    by_cases hparent : parent = n.parent
    · subst hparent
      simp [h.level_parent]
    · simp [h.level_of_ne parent hparent, hparent]
  have helement : ∀ p e, (b.node p).kind = .element e →
      p = a.size ∧ n.kind = .element e ∨
        p < a.size ∧ ∃ e', (a.node p).kind = .element e' ∧ e'.name = e.name ∧
          e'.endTag = e.endTag ∧ e'.selfClosing = e.selfClosing := by
    intro p e hkind
    have hp := b.lt_size_of_element hkind
    rw [h.size] at hp
    rcases Nat.lt_succ_iff_lt_or_eq.mp hp with hp | rfl
    · exact .inr ⟨hp, Node.element_of_withoutChildren (h.kept p hp).symm hkind⟩
    · rw [h.node_size] at hkind
      exact .inl ⟨rfl, hkind⟩
  have hnew : ∀ e, n.kind = .element e → e.endTag = none := by
    intro e hkind
    have hend := hn.endTag?
    rwa [Node.endTag?, Node.element?, hkind] at hend
  refine ⟨?_, ?_, ?_, ?_, ?_, ?_⟩
  · intro parent c hc
    rcases (hlevel parent c).mp hc with hc | ⟨rfl, rfl⟩
    · obtain ⟨hlt, hparent, hend⟩ := ha.up parent c hc
      have hkept := h.kept c hlt
      refine ⟨by rw [h.size]; exact Nat.lt_succ_of_lt hlt, ?_, ?_⟩
      · rw [Node.parent_of_withoutChildren hkept, hparent]
      · rw [Node.isEndTag_of_withoutChildren hkept, hend]
    · rw [h.size, h.node_size]
      exact ⟨Nat.lt_succ_self _, rfl, hn.isEndTag⟩
  · intro c hc hend
    rw [h.size] at hc
    refine (hlevel _ c).mpr ?_
    rcases Nat.lt_succ_iff_lt_or_eq.mp hc with hc | rfl
    · have hkept := h.kept c hc
      rw [Node.isEndTag_of_withoutChildren hkept] at hend
      rw [Node.parent_of_withoutChildren hkept]
      exact .inl (ha.down c hc hend)
    · rw [h.node_size]
      exact .inr ⟨rfl, rfl⟩
  · intro parent
    by_cases hparent : parent = n.parent
    · subst hparent
      rw [h.level_parent, List.pairwise_append]
      refine ⟨ha.increasing _, List.pairwise_singleton _ _, fun c hc d hd => ?_⟩
      rw [List.mem_singleton.mp hd]
      exact (ha.up _ c hc).1
    · rw [h.level_of_ne parent hparent]
      exact ha.increasing parent
  · intro p e c hkind hend
    rcases helement p e hkind with ⟨-, hkind⟩ | ⟨-, e', hkind', hname, hend', -⟩
    · rw [hnew e hkind] at hend
      cases hend
    · obtain ⟨hc, hparent, hcKind⟩ := ha.endTag_up p e' c hkind' (hend'.trans hend)
      have hkept := h.kept c hc
      refine ⟨by rw [h.size]; exact Nat.lt_succ_of_lt hc, ?_, ?_⟩
      · rw [Node.parent_of_withoutChildren hkept, hparent]
      · rw [← hname]
        exact Node.kind_endTag_of_withoutChildren hkept hcKind
  · intro c hc hend
    rw [h.size] at hc
    rcases Nat.lt_succ_iff_lt_or_eq.mp hc with hc | rfl
    · have hkept := h.kept c hc
      rw [Node.isEndTag_of_withoutChildren hkept] at hend
      obtain ⟨p, e, hparent, hkind, hendTag⟩ := ha.endTag_down c hc hend
      obtain ⟨e', hkind', -, hend', -⟩ :=
        Node.element_of_withoutChildren (h.kept p (a.lt_size_of_element hkind)) hkind
      refine ⟨p, e', ?_, hkind', hend'.trans hendTag⟩
      rw [Node.parent_of_withoutChildren hkept, hparent]
    · rw [h.node_size, hn.isEndTag] at hend
      cases hend
  · intro p e hkind hself
    rcases helement p e hkind with ⟨-, hkind⟩ | ⟨hp, e', hkind', -, hend', hself'⟩
    · refine ⟨?_, hnew e hkind⟩
      have hchildren := hn.children
      rwa [Node.children, hkind] at hchildren
    · -- The parent of the new node is open, so it does not close itself.
      have hne : n.parent ≠ some p := by
        intro hparent
        obtain ⟨e'', hkind'', -, hself''⟩ := hopen p hparent
        rw [hkind'] at hkind''
        cases hkind''
        rw [hself', hself] at hself''
        cases hself''
      rw [h.node_of_ne p hp hne] at hkind
      exact ha.selfClosing p e hkind hself

theorem Attaches.isOpen (h : a.Attaches topLevel n b topLevel') {p : NodeId} (hp : a.IsOpen p) :
    b.IsOpen p := by
  obtain ⟨e, hkind, hend, hself⟩ := hp
  obtain ⟨e', hkind', -, hend', hself'⟩ :=
    Node.element_of_withoutChildren (h.kept p (a.lt_size_of_element hkind)) hkind
  exact ⟨e', hkind', hend'.trans hend, hself'.trans hself⟩

theorem Attaches.level_head? (h : a.Attaches topLevel n b topLevel') {u : NodeId}
    (hparent : n.parent = some u) {outer : List NodeId} (houter : ∀ p ∈ outer, p < u) :
    b.level topLevel' outer.head? = a.level topLevel outer.head? := by
  refine h.level_of_ne _ fun heq => ?_
  have hmem := List.mem_of_head? (heq.trans hparent)
  exact Nat.lt_irrefl u (houter u hmem)

/-- The elements around the one that gets a node stay open. -/
theorem Attaches.opens_outer (h : a.Attaches topLevel n b topLevel') {u : NodeId}
    (hparent : n.parent = some u) {outer : List NodeId} (houter : ∀ p ∈ outer, p < u)
    (ha : a.Opens topLevel outer) : b.Opens topLevel' outer := by
  induction outer with
  | nil => trivial
  | cons p outer ih =>
      have houter' : ∀ q ∈ outer, q < u := fun q hq => houter q (List.mem_cons_of_mem p hq)
      obtain ⟨hlast, hopen, hopens⟩ := ha
      refine ⟨?_, h.isOpen hopen, ih houter' hopens⟩
      rw [h.level_head? hparent houter']
      exact hlast

theorem Attaches.opens (h : a.Attaches topLevel n b topLevel') {unclosed : List NodeId}
    (hparent : n.parent = unclosed.head?) (ha : a.Opens topLevel unclosed) :
    b.Opens topLevel' unclosed := by
  cases unclosed with
  | nil => trivial
  | cons u outer =>
      have houter := lt_of_opens ha
      obtain ⟨hlast, hopen, hopens⟩ := ha
      refine ⟨?_, h.isOpen hopen, h.opens_outer hparent houter hopens⟩
      rw [h.level_head? hparent houter]
      exact hlast

theorem Attaches.opens_new (h : a.Attaches topLevel n b topLevel') {unclosed : List NodeId}
    (hparent : n.parent = unclosed.head?) {e : Element} (hkind : n.kind = .element e)
    (hend : e.endTag = none) (hself : e.selfClosing = false) (ha : a.Opens topLevel unclosed) :
    b.Opens topLevel' (a.size :: unclosed) := by
  refine ⟨?_, ⟨e, ?_, hend, hself⟩, h.opens hparent ha⟩
  · rw [← hparent, h.level_parent, List.getLast?_concat]
  · rw [h.node_size, hkind]

theorem Attaches.numbers (h : a.Attaches topLevel n b topLevel') (hn : n.IsNew)
    (hlinked : a.Linked topLevel) (hrange : a.numbers topLevel = List.range a.size)
    {unclosed : List NodeId} (hparent : n.parent = unclosed.head?)
    (hopens : a.Opens topLevel unclosed) : b.numbers topLevel' = List.range b.size := by
  have hnew : (b.tree a.size).numbers = [a.size] := by
    refine numbers_of_new ?_
    rw [h.node_size]
    exact hn
  rw [h.size]
  cases unclosed with
  | nil =>
      have hsame : ∀ i < a.size, b.node i = a.node i := fun i hi =>
        h.node_of_ne i hi (by rw [hparent]; exact nofun)
      have hlevel : topLevel' = topLevel ++ [a.size] := by
        have hlevel := h.level_parent
        rwa [hparent] at hlevel
      have hold : b.numbers topLevel = a.numbers topLevel := by
        refine numbers_congr fun id hid => ?_
        have hsub := numbers_tree_sublist (a := a) hid
        rw [hrange] at hsub
        exact tree_congr_of_numbers fun i hi => hsame i (List.mem_range.mp (hsub.subset hi))
      rw [hlevel, numbers_append, numbers_singleton, hold, hnew, hrange, List.range_succ]
  | cons u outer =>
      have htop : topLevel' = topLevel := h.level_of_ne none (by rw [hparent]; exact nofun)
      have hopen := hopens.2.1
      have hsame : ∀ i < a.size, i ≠ u → b.node i = a.node i := by
        intro i hi hne
        refine h.node_of_ne i hi ?_
        rw [hparent]
        simpa using hne.symm
      have hchildren : b.children u = a.children u ++ [a.size] := by
        have hlevel := h.level_parent
        rwa [hparent] at hlevel
      have hold : b.numbers (a.children u) = a.numbers (a.children u) := by
        refine numbers_congr fun c hc => ?_
        have hbounds := a.children_bounds hc
        have hafter : ∀ i, u + 1 ≤ i → i < a.size → b.node i = a.node i := fun i hlow hi =>
          hsame i hi (Nat.ne_of_gt hlow)
        exact tree_congr hafter hbounds.1 hbounds.2
      rw [htop]
      refine numbers_of_opens hlinked hrange hsame hopens (a.mem_numbers_tree u) ?_
      rw [numbers_tree, numbers_tree, hchildren, numbers_append, numbers_singleton, hold, hnew,
        endTag?_of_isOpen hopen, endTag?_of_isOpen (h.isOpen hopen)]
      simp

/-! ### An end tag more -/

/-- From `a` to `b` the node `n` is added at the end, as the end tag of the open element `u`. -/
structure Closes (a : Arena) (u : NodeId) (n : Node) (b : Arena) : Prop where
  size : b.size = a.size + 1
  node_size : b.node a.size = n
  node_of_ne : ∀ i < a.size, i ≠ u → b.node i = a.node i
  node_self : b.node u = (a.node u).mapElement fun e => { e with endTag := some a.size }

theorem closes_close {u : NodeId} (hu : u < a.size) (hn : n.children = []) :
    a.Closes u n (a.close u n) where
  size := size_close a u n
  node_size := by
    rw [close, node_updateElement_of_ne _ _ _ (Nat.ne_of_gt hu), node_add_size,
      Node.withoutChildren_of_children hn]
  node_of_ne i hi hne := node_close_of_ne a n hi hne
  node_self := by rw [close, node_updateElement_self, node_add_of_lt a n hu]

variable {u : NodeId} {e : Element}

theorem Closes.kind_self (h : a.Closes u n b) (hkind : (a.node u).kind = .element e) :
    (b.node u).kind = .element { e with endTag := some a.size } := by
  rw [h.node_self, Node.kind_mapElement_of_element hkind]

theorem Closes.children (h : a.Closes u n b) (hn : n.isEndTag = true) (id : NodeId) :
    b.children id = a.children id := by
  have hnew : n.children = [] := by
    obtain ⟨kind, span, parent, origin⟩ := n
    cases kind with
    | element e => cases hn
    | _ => rfl
  by_cases hu : id = u
  · subst hu
    rw [Arena.children, h.node_self, Arena.children]
    exact Node.children_mapElement _ fun _ => rfl
  · rcases Nat.lt_trichotomy id a.size with hid | rfl | hid
    · rw [Arena.children, h.node_of_ne id hid hu, Arena.children]
    · rw [Arena.children, h.node_size, hnew, children_of_size_le a (Nat.le_refl _)]
    · rw [children_of_size_le a (Nat.le_of_lt hid),
        children_of_size_le b (by rw [h.size]; exact hid)]

theorem Closes.level (h : a.Closes u n b) (hn : n.isEndTag = true) (parent : Option NodeId) :
    b.level topLevel parent = a.level topLevel parent := by
  cases parent with
  | none => rfl
  | some p => exact h.children hn p

/-- Besides its element nothing of a node changes. -/
theorem Closes.kept (h : a.Closes u n b) (hkind : (a.node u).kind = .element e) :
    ∀ i < a.size, (b.node i).parent = (a.node i).parent ∧
      (b.node i).isEndTag = (a.node i).isEndTag ∧ (b.node i).span = (a.node i).span := by
  intro i hi
  by_cases hu : i = u
  · subst hu
    rw [h.node_self]
    revert hkind
    generalize a.node i = m
    obtain ⟨kind, span, parent, origin⟩ := m
    rintro rfl
    exact ⟨rfl, rfl, rfl⟩
  · rw [h.node_of_ne i hi hu]
    exact ⟨rfl, rfl, rfl⟩

theorem Closes.linked (h : a.Closes u n b) (hkind : (a.node u).kind = .element e)
    (hend : e.endTag = none) (hself : e.selfClosing = false) (hn : n.kind = .endTag e.name)
    (hparent : n.parent = some u) (ha : a.Linked topLevel) : b.Linked topLevel := by
  have hnEnd : n.isEndTag = true := by rw [Node.isEndTag, hn]
  have hkept := h.kept hkind
  have helement : ∀ p e', (b.node p).kind = .element e' →
      p = u ∧ e' = { e with endTag := some a.size } ∨ p ≠ u ∧ (a.node p).kind = .element e' := by
    intro p e' hp
    by_cases hpu : p = u
    · subst hpu
      rw [h.kind_self hkind] at hp
      cases hp
      exact .inl ⟨rfl, rfl⟩
    · have hlt := b.lt_size_of_element hp
      rw [h.size] at hlt
      rcases Nat.lt_succ_iff_lt_or_eq.mp hlt with hlt | rfl
      · rw [h.node_of_ne p hlt hpu] at hp
        exact .inr ⟨hpu, hp⟩
      · rw [h.node_size, hn] at hp
        cases hp
  refine ⟨?_, ?_, ?_, ?_, ?_, ?_⟩
  · intro parent c hc
    rw [h.level hnEnd] at hc
    obtain ⟨hlt, hup, hcEnd⟩ := ha.up parent c hc
    obtain ⟨hp, hi, -⟩ := hkept c hlt
    exact ⟨by rw [h.size]; exact Nat.lt_succ_of_lt hlt, hp.trans hup, hi.trans hcEnd⟩
  · intro c hc hcEnd
    rw [h.size] at hc
    rcases Nat.lt_succ_iff_lt_or_eq.mp hc with hc | rfl
    · obtain ⟨hp, hi, -⟩ := hkept c hc
      rw [h.level hnEnd, hp]
      exact ha.down c hc (hi.symm.trans hcEnd)
    · rw [h.node_size, hnEnd] at hcEnd
      cases hcEnd
  · intro parent
    rw [h.level hnEnd]
    exact ha.increasing parent
  · intro p e' c hp hc
    rcases helement p e' hp with ⟨rfl, rfl⟩ | ⟨-, hp⟩
    · cases hc
      rw [h.size, h.node_size]
      exact ⟨Nat.lt_succ_self _, hparent, hn⟩
    · obtain ⟨hlt, hup, hcKind⟩ := ha.endTag_up p e' c hp hc
      have hcu : c ≠ u := by
        rintro rfl
        rw [hkind] at hcKind
        cases hcKind
      rw [h.size, h.node_of_ne c hlt hcu]
      exact ⟨Nat.lt_succ_of_lt hlt, hup, hcKind⟩
  · intro c hc hcEnd
    rw [h.size] at hc
    rcases Nat.lt_succ_iff_lt_or_eq.mp hc with hc | rfl
    · obtain ⟨hp, hi, -⟩ := hkept c hc
      obtain ⟨p, e', hup, hpKind, hendTag⟩ := ha.endTag_down c hc (hi.symm.trans hcEnd)
      have hpu : p ≠ u := by
        rintro rfl
        rw [hkind] at hpKind
        cases hpKind
        rw [hend] at hendTag
        cases hendTag
      refine ⟨p, e', hp.trans hup, ?_, hendTag⟩
      rw [h.node_of_ne p (a.lt_size_of_element hpKind) hpu]
      exact hpKind
    · refine ⟨u, _, ?_, h.kind_self hkind, rfl⟩
      rw [h.node_size]
      exact hparent
  · intro p e' hp hself'
    rcases helement p e' hp with ⟨rfl, rfl⟩ | ⟨-, hp⟩
    · rw [hself] at hself'
      cases hself'
    · exact ha.selfClosing p e' hp hself'

theorem Closes.opens (h : a.Closes u n b) {outer : List NodeId}
    (ha : a.Opens topLevel (u :: outer)) : b.Opens topLevel outer := by
  have houter := lt_of_opens ha
  have hopen := isOpen_of_mem ha.2.2
  refine ha.2.2.congr fun p hp => ?_
  obtain ⟨e, hkind, -, -⟩ := hopen p hp
  exact h.node_of_ne p (a.lt_size_of_element hkind) (Nat.ne_of_lt (houter p hp))

theorem Closes.numbers (h : a.Closes u n b) (hkind : (a.node u).kind = .element e)
    (hend : e.endTag = none) (hn : n.isEndTag = true) (hlinked : a.Linked topLevel)
    (hrange : a.numbers topLevel = List.range a.size) {outer : List NodeId}
    (hopens : a.Opens topLevel (u :: outer)) : b.numbers topLevel = List.range b.size := by
  have hold : b.numbers (a.children u) = a.numbers (a.children u) := by
    refine numbers_congr fun c hc => ?_
    have hbounds := a.children_bounds hc
    have hafter : ∀ i, u + 1 ≤ i → i < a.size → b.node i = a.node i := fun i hlow hi =>
      h.node_of_ne i hi (Nat.ne_of_gt hlow)
    exact tree_congr hafter hbounds.1 hbounds.2
  have hendTag : (b.node u).endTag? = some a.size := by
    rw [Node.endTag?, Node.element?, h.kind_self hkind]
    rfl
  have hendTag' : (a.node u).endTag? = none := by
    rw [Node.endTag?, Node.element?, hkind]
    exact hend
  rw [h.size]
  refine numbers_of_opens hlinked hrange h.node_of_ne hopens (a.mem_numbers_tree u) ?_
  rw [numbers_tree, numbers_tree, h.children hn, hold, hendTag, hendTag']
  simp

/-! ### Spans -/

/-- The nodes cover stretches of the source one after another, none of them empty, up to the byte
`limit`. -/
structure InOrder (a : Arena) (limit : Nat) : Prop where
  stop_le_offset : ∀ i j, i < j → j < a.size → (a.node i).span.stop ≤ (a.node j).span.offset
  length_pos : ∀ i < a.size, 0 < (a.node i).span.length
  stop_le : ∀ i < a.size, (a.node i).span.stop ≤ limit

theorem InOrder.add {limit : Nat} {span : Span} (ha : a.InOrder limit) (hsize : b.size = a.size + 1)
    (hspan : ∀ i < a.size, (b.node i).span = (a.node i).span)
    (hnew : (b.node a.size).span = span) (hlimit : limit ≤ span.offset)
    (hlength : 0 < span.length) : b.InOrder span.stop := by
  have hoffset : span.offset ≤ span.stop := Nat.le_add_right _ _
  refine ⟨?_, ?_, ?_⟩
  · intro i j hij hj
    rw [hsize] at hj
    rcases Nat.lt_succ_iff_lt_or_eq.mp hj with hj | rfl
    · rw [hspan i (Nat.lt_trans hij hj), hspan j hj]
      exact ha.stop_le_offset i j hij hj
    · rw [hspan i hij, hnew]
      exact Nat.le_trans (ha.stop_le i hij) hlimit
  · intro i hi
    rw [hsize] at hi
    rcases Nat.lt_succ_iff_lt_or_eq.mp hi with hi | rfl
    · rw [hspan i hi]
      exact ha.length_pos i hi
    · rw [hnew]
      exact hlength
  · intro i hi
    rw [hsize] at hi
    rcases Nat.lt_succ_iff_lt_or_eq.mp hi with hi | rfl
    · rw [hspan i hi]
      exact Nat.le_trans (ha.stop_le i hi) (Nat.le_trans hlimit hoffset)
    · exact Nat.le_of_eq (congrArg Span.stop hnew)

theorem InOrder.mono {limit limit' : Nat} (ha : a.InOrder limit) (h : limit ≤ limit') :
    a.InOrder limit' :=
  ⟨ha.stop_le_offset, ha.length_pos, fun i hi => Nat.le_trans (ha.stop_le i hi) h⟩

end Arena

end PatternMarkup
