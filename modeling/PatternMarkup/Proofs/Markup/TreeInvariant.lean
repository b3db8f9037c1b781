import PatternMarkup.Proofs.Markup.PrintTree
import PatternMarkup.Proofs.Markup.TreeGrowth
/-!
Every state of a tree under construction is in order, whatever tokens come: matched and unmatched
end tags, several elements outside all others, and elements that are never closed.
-/

namespace PatternMarkup.TreeBuilder

/-- The nodes made so far are linked and in order, and cover nothing from the byte `limit` on. -/
structure Sound (b : TreeBuilder) (limit : Nat) : Prop where
  linked : b.arena.Linked b.topLevel.toList
  opens : b.arena.Opens b.topLevel.toList b.unclosed
  numbers : b.arena.numbers b.topLevel.toList = List.range b.arena.size
  inOrder : b.arena.InOrder limit

theorem sound_empty : Sound {} 0 := by
  have hnode : ∀ id, (Arena.empty.node id) = Node.absent := fun id =>
    Arena.empty.node_of_size_le (Nat.zero_le id)
  have hlevel : ∀ parent, Arena.empty.level [] parent = [] := by
    intro parent
    cases parent with
    | none => rfl
    | some p => exact Arena.empty.children_of_size_le (Nat.zero_le p)
  refine ⟨⟨?_, ?_, ?_, ?_, ?_, ?_⟩, trivial, rfl, ⟨?_, ?_, ?_⟩⟩
  · intro parent c hc
    rw [hlevel] at hc
    cases hc
  · intro c hc
    exact absurd hc (Nat.not_lt_zero c)
  · intro parent
    rw [hlevel]
    exact List.Pairwise.nil
  · intro p e c hkind
    rw [hnode] at hkind
    cases hkind
  · intro c hc
    exact absurd hc (Nat.not_lt_zero c)
  · intro p e hkind
    rw [hnode] at hkind
    cases hkind
  · intro i j hij hj
    exact absurd hj (Nat.not_lt_zero j)
  · intro i hi
    exact absurd hi (Nat.not_lt_zero i)
  · intro i hi
    exact absurd hi (Nat.not_lt_zero i)

section

variable {b : TreeBuilder} {limit : Nat}

theorem Sound.mono (h : b.Sound limit) {limit' : Nat} (hle : limit ≤ limit') : b.Sound limit' :=
  ⟨h.linked, h.opens, h.numbers, h.inOrder.mono hle⟩

theorem Sound.report (h : b.Sound limit) (fault : MarkupFault) (span : Span) :
    (b.report fault span).Sound limit :=
  ⟨h.linked, h.opens, h.numbers, h.inOrder⟩

theorem Sound.skip (h : b.Sound limit) (span : Span) : (b.skip span).Sound limit :=
  ⟨h.linked, h.opens, h.numbers, h.inOrder⟩

/-- Reports of elements that are not closed change nothing but the faults. -/
theorem foldl_reportUnclosed (ids : List NodeId) (b : TreeBuilder) :
    ∃ faults, ids.foldl reportUnclosed b = { b with faults } := by
  induction ids generalizing b with
  | nil => exact ⟨b.faults, rfl⟩
  | cons id ids ih =>
      rw [List.foldl_cons]
      have hid : ∃ faults, b.reportUnclosed id = { b with faults } := by
        unfold reportUnclosed
        split
        · exact ⟨_, rfl⟩
        · exact ⟨b.faults, rfl⟩
      obtain ⟨faults, hid⟩ := hid
      obtain ⟨faults', hids⟩ := ih (b.reportUnclosed id)
      exact ⟨faults', by rw [hids, hid]⟩

/-! ### A new node -/

/-- The node that `attach` adds. -/
def attached (b : TreeBuilder) (kind : NodeKind) (span : Span) : Node :=
  ⟨kind, span, b.unclosed.head?, none⟩

theorem unclosed_attach (b : TreeBuilder) (kind : NodeKind) (span : Span) :
    (b.attach kind span).unclosed = b.unclosed := by
  unfold attach
  split <;> simp_all

theorem attaches_attach (h : b.Sound limit) {kind : NodeKind} {span : Span}
    (hnew : (b.attached kind span).IsNew) :
    b.arena.Attaches b.topLevel.toList (b.attached kind span) (b.attach kind span).arena
      (b.attach kind span).topLevel.toList := by
  have hopens := h.opens
  unfold attached at hnew ⊢
  cases hunclosed : b.unclosed with
  | nil =>
      rw [hunclosed] at hnew
      rw [attach, hunclosed]
      simp only [Array.toList_push]
      exact Arena.attaches_add hnew rfl
  | cons u outer =>
      rw [hunclosed] at hnew hopens
      rw [attach_of_unclosed hunclosed]
      exact Arena.attaches_addBelow hnew rfl hopens.2.1

theorem Sound.attach (h : b.Sound limit) {kind : NodeKind} {span : Span}
    (hnew : (b.attached kind span).IsNew) (hlimit : limit ≤ span.offset)
    (hlength : 0 < span.length) : (b.attach kind span).Sound span.stop := by
  have hattaches := attaches_attach h hnew
  have hopen : ∀ p, (b.attached kind span).parent = some p → b.arena.IsOpen p := fun p hp =>
    Arena.isOpen_of_mem h.opens p (List.mem_of_head? hp)
  refine ⟨hattaches.linked hnew hopen h.linked, ?_, ?_, ?_⟩
  · rw [unclosed_attach]
    exact hattaches.opens rfl h.opens
  · exact hattaches.numbers hnew h.linked h.numbers rfl h.opens
  · refine h.inOrder.add hattaches.size (fun i hi => ?_) ?_ hlimit hlength
    · exact Node.span_of_withoutChildren (hattaches.kept i hi)
    · rw [hattaches.node_size]
      rfl

/-- A new element that does not close itself is the innermost open one. -/
theorem Sound.push (h : b.Sound limit) {e : Element} {span : Span}
    (hnew : (b.attached (.element e) span).IsNew) (hself : e.selfClosing = false)
    (hlimit : limit ≤ span.offset) (hlength : 0 < span.length) :
    Sound { b.attach (.element e) span with unclosed := b.arena.size :: b.unclosed }
      span.stop := by
  obtain ⟨hlinked, -, hnumbers, hinOrder⟩ := h.attach hnew hlimit hlength
  have hopens := (attaches_attach h hnew).opens_new rfl rfl hnew.endTag? hself h.opens
  exact ⟨hlinked, hopens, hnumbers, hinOrder⟩

theorem Sound.startTag (h : b.Sound limit) (name : String) (nameSpan : Span)
    (raws : List RawAttribute) (selfClosing : Bool) {span : Span} (hlimit : limit ≤ span.offset)
    (hlength : 0 < span.length) :
    (b.startTag name nameSpan raws selfClosing span).Sound span.stop := by
  have hreported : Sound (if b.unclosed.isEmpty && b.root.isSome
      then b.report .multipleRoots nameSpan else b) limit := by
    split
    · exact h.report _ _
    · exact h
  unfold TreeBuilder.startTag
  simp only
  generalize (if b.unclosed.isEmpty && b.root.isSome
    then b.report .multipleRoots nameSpan else b) = c at hreported ⊢
  have hnew : (c.attached (.element (newElement c.arena.size name nameSpan raws selfClosing))
      span).IsNew := ⟨rfl, rfl, rfl⟩
  cases selfClosing with
  | true =>
      obtain ⟨hlinked, hopens, hnumbers, hinOrder⟩ := hreported.attach hnew hlimit hlength
      rw [if_pos rfl]
      split
      · exact ⟨hlinked, hopens, hnumbers, hinOrder⟩
      · exact ⟨hlinked, hopens, hnumbers, hinOrder⟩
  | false =>
      obtain ⟨hlinked, hopens, hnumbers, hinOrder⟩ := hreported.push hnew rfl hlimit hlength
      rw [← unclosed_attach] at hopens
      rw [if_neg Bool.false_ne_true]
      split
      · exact ⟨hlinked, hopens, hnumbers, hinOrder⟩
      · exact ⟨hlinked, hopens, hnumbers, hinOrder⟩

/-! ### A new end tag -/

theorem Sound.close (h : b.Sound limit) {name : String} {inner outer : List NodeId} {u : NodeId}
    (hunclosed : b.unclosed = inner ++ u :: outer) (hnamed : isElementNamed b.arena name u = true)
    {span : Span} (hlimit : limit ≤ span.offset) (hlength : 0 < span.length) :
    Sound { b with
      arena := b.arena.close u ⟨.endTag name, span, some u, none⟩, unclosed := outer }
      span.stop := by
  have hopens : b.arena.Opens b.topLevel.toList (u :: outer) := by
    have hall := h.opens
    rw [hunclosed] at hall
    exact hall.outer
  obtain ⟨e, hkind, hend, hself⟩ := hopens.2.1
  obtain rfl : e.name = name := by
    simpa [isElementNamed, Arena.element?, Node.element?, hkind] using hnamed
  have hcloses := Arena.closes_close (n := ⟨.endTag e.name, span, some u, none⟩)
    (b.arena.lt_size_of_element hkind) rfl
  refine ⟨hcloses.linked hkind hend hself rfl rfl h.linked, hcloses.opens hopens, ?_, ?_⟩
  · exact hcloses.numbers hkind hend rfl h.linked h.numbers hopens
  · refine h.inOrder.add hcloses.size (fun i hi => (hcloses.kept hkind i hi).2.2) ?_ hlimit hlength
    rw [hcloses.node_size]

theorem Sound.endTag (h : b.Sound limit) (name : String) {span : Span}
    (hlimit : limit ≤ span.offset) (hlength : 0 < span.length) :
    (b.endTag name span).Sound span.stop := by
  have hsplit := List.takeWhile_append_dropWhile (p := fun id => !isElementNamed b.arena name id)
    (l := b.unclosed)
  unfold TreeBuilder.endTag
  rw [List.span_eq_takeWhile_dropWhile]
  cases hdrop : b.unclosed.dropWhile fun id => !isElementNamed b.arena name id with
  | nil =>
      refine ((h.report _ _).skip span).mono ?_
      exact Nat.le_trans hlimit (Nat.le_add_right _ _)
  | cons u outer =>
      have hnamed : isElementNamed b.arena name u = true := by
        have hhead := List.head?_dropWhile_not (fun id => !isElementNamed b.arena name id) b.unclosed
        rw [hdrop] at hhead
        simpa using hhead
      rw [hdrop] at hsplit
      obtain ⟨faults, hreported⟩ := foldl_reportUnclosed
        (b.unclosed.takeWhile fun id => !isElementNamed b.arena name id).reverse b
      obtain ⟨hlinked, hopens, hnumbers, hinOrder⟩ := h.close hsplit.symm hnamed hlimit hlength
      simp only [hreported]
      exact ⟨hlinked, hopens, hnumbers, hinOrder⟩

/-! ### All tokens -/

/-- One more token keeps the tree in order. -/
theorem Sound.token (h : b.Sound limit) (keepComments : Bool) {t : Token}
    (hlimit : limit ≤ t.span.offset) (hlength : 0 < t.span.length) :
    (b.token keepComments t).Sound t.span.stop := by
  have hle : limit ≤ t.span.stop := Nat.le_trans hlimit (Nat.le_add_right _ _)
  unfold TreeBuilder.token
  cases t.kind with
  | startTag name nameSpan raws selfClosing =>
      exact h.startTag name nameSpan raws selfClosing hlimit hlength
  | endTag name => exact h.endTag name hlimit hlength
  | text content blank =>
      simp only
      split
      · exact (h.report _ _).attach ⟨rfl, rfl, rfl⟩ hlimit hlength
      · exact h.attach ⟨rfl, rfl, rfl⟩ hlimit hlength
  | comment content =>
      simp only
      split
      · exact h.attach ⟨rfl, rfl, rfl⟩ hlimit hlength
      · exact (h.skip t.span).mono hle
  | skipped => exact (h.skip t.span).mono hle

theorem Sound.foldl_token (keepComments : Bool) {tokens : List Token} {start stop : Nat}
    (htiles : Tiles start stop (tokens.map (·.span))) (h : b.Sound start) :
    (tokens.foldl (TreeBuilder.token keepComments) b).Sound stop := by
  induction tokens generalizing b start with
  | nil =>
      obtain rfl : start = stop := htiles
      exact h
  | cons t tokens ih =>
      obtain ⟨hoffset, hlength, hlater⟩ := htiles
      rw [List.foldl_cons]
      exact ih hlater (h.token keepComments (Nat.le_of_eq hoffset.symm) hlength)

end

/-- The tree of tokens that follow one another is in order. -/
theorem sound_ofTokens (keepComments : Bool) {tokens : List Token} {stop : Nat}
    (htiles : Tiles 0 stop (tokens.map (·.span))) : (ofTokens keepComments tokens).Sound stop := by
  have hall := sound_empty.foldl_token keepComments htiles
  rw [ofTokens, finish]
  obtain ⟨faults, hreported⟩ := foldl_reportUnclosed
    (tokens.foldl (token keepComments) {}).unclosed.reverse (tokens.foldl (token keepComments) {})
  rw [hreported]
  exact ⟨hall.linked, hall.opens, hall.numbers, hall.inOrder⟩

end PatternMarkup.TreeBuilder
