import Mathlib.Data.List.TakeDrop
import PatternMarkup.Proofs.Markup.Nodes
import PatternMarkup.Proofs.Markup.PrintTokens
/-!
Building the tree of what was printed. The tokens that spell a tree make one more child of the
innermost open element, from which the tree is read back; so a printed tree is the document.
-/

namespace PatternMarkup

/-! ### Reading trees back -/

theorem Tree.markups?_eq_some {trees : List Tree} {markups : List MarkupTree}
    (h : trees.map Tree.markup? = markups.map some) : Tree.markups? trees = some markups := by
  induction trees generalizing markups with
  | nil =>
      obtain rfl : markups = [] := List.map_eq_nil_iff.mp h.symm
      rw [markups?]
  | cons tree trees ih =>
      cases markups with
      | nil => cases h
      | cons markup markups =>
          obtain ⟨htree, htrees⟩ := List.cons_eq_cons.mp h
          rw [markups?, htree, ih htrees]
          rfl

namespace Arena

/-- An element stands for the markup made of what its children stand for. -/
theorem markup?_tree_of_element {a : Arena} {id : NodeId} {e : Element}
    (markups : List MarkupTree) (hkind : (a.node id).kind = .element e)
    (hchildren : e.children.map (fun child => (a.tree child).markup?) = markups.map some) :
    (a.tree id).markup? = MarkupTree.ofElement? e markups := by
  have htrees : Tree.markups? ((a.children id).map a.tree) = some markups := by
    refine Tree.markups?_eq_some ?_
    rw [List.map_map, children, Node.children, hkind]
    exact hchildren
  rw [tree_eq, Tree.markup?, hkind]
  simp only [htrees, Option.bind_some]

end Arena

namespace TreeBuilder

/-! ### Growing by children -/

/-- From `b` to `b'` the element `parent` gets children at its end that stand for the given
markup. Their trees are made of new nodes, and nothing else changes. -/
structure Grown (b b' : TreeBuilder) (parent : NodeId) (markups : List MarkupTree) : Prop where
  unclosed : b'.unclosed = b.unclosed
  root : b'.root = b.root
  faults : b'.faults = b.faults
  size_le : b.arena.size ≤ b'.arena.size
  node_eq : ∀ id < b.arena.size, id ≠ parent → b'.arena.node id = b.arena.node id
  children : ∃ ids,
    b'.arena.node parent
        = (b.arena.node parent).mapElement (fun e => { e with children := e.children ++ ids })
      ∧ (∀ id ∈ ids, b.arena.size ≤ id ∧ id < b'.arena.size)
      ∧ ids.map (fun id => (b'.arena.tree id).markup?) = markups.map some

theorem Grown.refl (b : TreeBuilder) (parent : NodeId) : Grown b b parent [] :=
  ⟨rfl, rfl, rfl, Nat.le_refl _, fun _ _ _ => rfl,
    [], (Node.mapElement_append_nil _).symm, by simp, rfl⟩

/-- The trees of earlier children stay when later ones are added. -/
theorem Grown.trans {b c d : TreeBuilder} {parent : NodeId} {front back : List MarkupTree}
    (hparent : parent < b.arena.size) (hbc : Grown b c parent front)
    (hcd : Grown c d parent back) : Grown b d parent (front ++ back) := by
  obtain ⟨ids, hids, hbounds, hread⟩ := hbc.children
  obtain ⟨more, hmore, hmoreBounds, hmoreRead⟩ := hcd.children
  refine ⟨hcd.unclosed.trans hbc.unclosed, hcd.root.trans hbc.root, hcd.faults.trans hbc.faults,
    Nat.le_trans hbc.size_le hcd.size_le, fun id hid hne => ?_, ids ++ more, ?_, ?_, ?_⟩
  · rw [hcd.node_eq id (Nat.lt_of_lt_of_le hid hbc.size_le) hne, hbc.node_eq id hid hne]
  · rw [hmore, hids, Node.mapElement_append_append]
  · intro id hid
    rcases List.mem_append.mp hid with hid | hid
    · exact ⟨(hbounds id hid).1, Nat.lt_of_lt_of_le (hbounds id hid).2 hcd.size_le⟩
    · exact ⟨Nat.le_trans hbc.size_le (hmoreBounds id hid).1, (hmoreBounds id hid).2⟩
  · -- The parent comes before all its children, so their trees do not see it change.
    have hnodes : ∀ id, b.arena.size ≤ id → id < c.arena.size →
        d.arena.node id = c.arena.node id := fun id hlow hid =>
      hcd.node_eq id hid (Nat.ne_of_gt (Nat.lt_of_lt_of_le hparent hlow))
    rw [List.map_append, List.map_append, hmoreRead, ← hread]
    congr 1
    refine List.map_congr_left fun id hid => ?_
    rw [Arena.tree_congr hnodes (hbounds id hid).1 (hbounds id hid).2]

/-! ### What tokens do -/

section

variable {b : TreeBuilder} {parent : NodeId} {outer : List NodeId}

theorem attach_of_unclosed (hunclosed : b.unclosed = parent :: outer) (kind : NodeKind)
    (span : Span) :
    b.attach kind span
      = { b with arena := b.arena.addBelow parent ⟨kind, span, some parent, none⟩ } := by
  rw [attach, hunclosed]
  rfl

/-- A node inside an element is one more child of it. -/
theorem grown_attach (hunclosed : b.unclosed = parent :: outer) (hparent : parent < b.arena.size)
    {kind : NodeKind} (span : Span) {markup : MarkupTree}
    (hchildren : (⟨kind, span, some parent, none⟩ : Node).children = [])
    (hread : ∀ (a : Arena) (id : NodeId), (a.node id).kind = kind →
      (a.tree id).markup? = some markup) : Grown b (b.attach kind span) parent [markup] := by
  have hsize := b.arena.size_addBelow parent ⟨kind, span, some parent, none⟩
  rw [attach_of_unclosed hunclosed]
  refine ⟨rfl, rfl, rfl, by rw [hsize]; exact Nat.le_succ _, fun id hid hne => ?_,
    [b.arena.size], ?_, ?_, ?_⟩
  · exact b.arena.node_addBelow_of_ne _ hid hne
  · exact b.arena.node_addBelow_parent _ hparent
  · intro id hid
    obtain rfl := List.mem_singleton.mp hid
    exact ⟨Nat.le_refl _, by rw [hsize]; exact Nat.lt_succ_self _⟩
  · have hnode := b.arena.node_addBelow_size hchildren hparent
    simp only [List.map_cons, List.map_nil]
    rw [hread _ _ (by rw [hnode])]

/-- The element of a start tag before it has children. -/
def newElement (id : NodeId) (name : String) (nameSpan : Span) (raws : List RawAttribute)
    (selfClosing : Bool) : Element :=
  ⟨name, nameSpan, ownedAttributes id raws, [], none, selfClosing⟩

theorem token_selfClosed (hunclosed : b.unclosed = parent :: outer) (name : String)
    (nameSpan : Span) (raws : List RawAttribute) (span : Span) :
    token true b ⟨.startTag name nameSpan raws true, span⟩
      = b.attach (.element (newElement b.arena.size name nameSpan raws true)) span := by
  have houter : b.unclosed.isEmpty = false := by rw [hunclosed, List.isEmpty_cons]
  simp [token, startTag, newElement, houter]

theorem token_open (hunclosed : b.unclosed = parent :: outer) (name : String)
    (nameSpan : Span) (raws : List RawAttribute) (span : Span) :
    token true b ⟨.startTag name nameSpan raws false, span⟩ = { b with
      arena := b.arena.addBelow parent
        ⟨.element (newElement b.arena.size name nameSpan raws false), span, some parent, none⟩
      unclosed := b.arena.size :: b.unclosed } := by
  have houter : b.unclosed.isEmpty = false := by rw [hunclosed, List.isEmpty_cons]
  simp [token, startTag, newElement, houter, attach_of_unclosed hunclosed]

theorem pairs_ownedAttributes (owner : NodeId) (raws : List RawAttribute) :
    (ownedAttributes owner raws).map (fun a => (a.name, a.value)) = MarkupTree.pairs raws := by
  refine List.ext_getElem (by simp [ownedAttributes, MarkupTree.pairs]) fun i hi hi' => ?_
  simp [ownedAttributes, MarkupTree.pairs]

theorem ofElement?_newElement (id : NodeId) (name : String) (nameSpan : Span)
    (raws : List RawAttribute) :
    MarkupTree.ofElement? (newElement id name nameSpan raws true) []
      = some (.selfClosed name (MarkupTree.pairs raws)) := by
  simp [MarkupTree.ofElement?, newElement, pairs_ownedAttributes]

/-- The end tag of the innermost open element closes that element only. -/
theorem endTag_of_unclosed (hunclosed : b.unclosed = parent :: outer) {e : Element}
    (hkind : (b.arena.node parent).kind = .element e) (span : Span) :
    b.endTag e.name span = { b with
      arena := b.arena.close parent ⟨.endTag e.name, span, some parent, none⟩
      unclosed := outer } := by
  have hname : isElementNamed b.arena e.name parent = true := by
    simp [isElementNamed, Arena.element?, Node.element?, hkind]
  have hspan : (parent :: outer).span (fun id => !isElementNamed b.arena e.name id)
      = ([], parent :: outer) := by
    rw [List.span_eq_takeWhile_dropWhile, List.takeWhile_cons_of_neg (by simp [hname]),
      List.dropWhile_cons_of_neg (by simp [hname])]
  rw [endTag, hunclosed, hspan]
  rfl

end

/-! ### What elements do -/

/-- The innermost open element of `b` is closed in `c`, where it stands for the given markup; the
elements around it and the earlier nodes are as they were. -/
structure Closes (b c : TreeBuilder) (id : NodeId) (outer : List NodeId) (markup : MarkupTree) :
    Prop where
  unclosed : c.unclosed = outer
  root : c.root = b.root
  faults : c.faults = b.faults
  size_le : b.arena.size ≤ c.arena.size
  node_eq : ∀ i < b.arena.size, i ≠ id → c.arena.node i = b.arena.node i
  read : (c.arena.tree id).markup? = some markup

/-- An open element that got its children stands for itself with them once it is closed. -/
theorem Grown.closes {b c : TreeBuilder} {id : NodeId} {outer : List NodeId} {name : String}
    {nameSpan : Span} {raws : List RawAttribute} {markups : List MarkupTree}
    (h : Grown b c id markups) (hunclosed : b.unclosed = id :: outer) (hid : id < b.arena.size)
    (hkind : (b.arena.node id).kind = .element (newElement id name nameSpan raws false))
    (span : Span) :
    Closes b (c.endTag name span) id outer (.element name (MarkupTree.pairs raws) markups) := by
  obtain ⟨ids, hids, hbounds, hread⟩ := h.children
  have hgrown : (c.arena.node id).kind
      = .element { newElement id name nameSpan raws false with children := ids } := by
    rw [hids, Node.kind_mapElement_of_element hkind]
    rfl
  have hclosed : c.endTag name span = { c with
      arena := c.arena.close id ⟨.endTag name, span, some id, none⟩, unclosed := outer } :=
    endTag_of_unclosed (h.unclosed.trans hunclosed) hgrown span
  have hsize := Nat.lt_of_lt_of_le hid h.size_le
  rw [hclosed]
  refine ⟨rfl, h.root, h.faults, ?_, fun i hi hne => ?_, ?_⟩
  · rw [Arena.size_close]
    exact Nat.le_succ_of_le h.size_le
  · rw [Arena.node_close_of_ne _ _ (Nat.lt_of_lt_of_le hi h.size_le) hne, h.node_eq i hi hne]
  · -- The end tag is a node of its own and no child; the children's trees stay.
    have hkept : ∀ i, b.arena.size ≤ i → i < c.arena.size →
        (c.arena.close id ⟨.endTag name, span, some id, none⟩).node i = c.arena.node i :=
      fun i hlow hi =>
        Arena.node_close_of_ne _ _ hi (Nat.ne_of_gt (Nat.lt_of_lt_of_le hid hlow))
    rw [Arena.markup?_tree_of_element markups (c.arena.kind_close_self _ hsize hgrown) ?_]
    · simp [MarkupTree.ofElement?, newElement, pairs_ownedAttributes]
    · rw [← hread]
      refine List.map_congr_left fun child hchild => ?_
      rw [Arena.tree_congr hkept (hbounds child hchild).1 (hbounds child hchild).2]

/-- An element opened and closed inside another is one more child of it. -/
theorem Closes.grown {b c d : TreeBuilder} {parent : NodeId} {n : Node} {markup : MarkupTree}
    (h : Closes c d b.arena.size b.unclosed markup) (hparent : parent < b.arena.size)
    (harena : c.arena = b.arena.addBelow parent n) (hroot : c.root = b.root)
    (hfaults : c.faults = b.faults) : Grown b d parent [markup] := by
  have hsize : c.arena.size = b.arena.size + 1 := by rw [harena, Arena.size_addBelow]
  have hnode : ∀ i < b.arena.size, d.arena.node i = (b.arena.addBelow parent n).node i :=
    fun i hi => by
      rw [h.node_eq i (by omega) (Nat.ne_of_lt hi), harena]
  have hlt : b.arena.size < d.arena.size := Nat.lt_of_lt_of_le (by omega) h.size_le
  refine ⟨h.unclosed, h.root.trans hroot, h.faults.trans hfaults, Nat.le_of_lt hlt,
    fun i hi hne => ?_,
    [b.arena.size], ?_, ?_, ?_⟩
  · rw [hnode i hi, Arena.node_addBelow_of_ne _ _ hi hne]
  · rw [hnode parent hparent, Arena.node_addBelow_parent _ _ hparent]
  · intro id hid
    obtain rfl := List.mem_singleton.mp hid
    exact ⟨Nat.le_refl _, hlt⟩
  · rw [List.map_singleton, List.map_singleton, h.read]

mutual

/-- The tokens that spell a tree, taken in inside an element, make one child of it, which stands
for the tree. -/
theorem grown_of_spells : (tree : MarkupTree) → {tokens : List Token} → tree.Spells tokens →
    (b : TreeBuilder) → {parent : NodeId} → {outer : List NodeId} →
    b.unclosed = parent :: outer → parent < b.arena.size →
    Grown b (tokens.foldl (token true) b) parent [tree]
  | .text content, tokens, h, b, parent, outer, hunclosed, hparent => by
      cases h with
      | @text _ blank span =>
          have htoken : token true b ⟨.text content blank, span⟩
              = b.attach (.text content blank) span := by
            simp [token, hunclosed]
          rw [List.foldl_cons, List.foldl_nil, htoken]
          refine grown_attach hunclosed hparent span rfl fun a id hkind => ?_
          rw [Arena.tree_eq, Tree.markup?, hkind]
  | .comment content, tokens, h, b, parent, outer, hunclosed, hparent => by
      cases h with
      | @comment _ span =>
          refine grown_attach hunclosed hparent span rfl fun a id hkind => ?_
          rw [Arena.tree_eq, Tree.markup?, hkind]
  | .selfClosed name attributes, tokens, h, b, parent, outer, hunclosed, hparent => by
      cases h with
      | @selfClosed _ nameSpan span raws =>
          rw [List.foldl_cons, List.foldl_nil, token_selfClosed hunclosed]
          refine grown_attach hunclosed hparent span rfl fun a id hkind => ?_
          rw [Arena.markup?_tree_of_element [] hkind rfl, ofElement?_newElement]
  | .element name attributes children, tokens, h, b, parent, outer, hunclosed, hparent => by
      cases h with
      | @element _ nameSpan span endSpan raws _ inner hinner =>
          rw [List.foldl_cons, List.foldl_append, List.foldl_cons, List.foldl_nil,
            token_open hunclosed]
          let node : Node :=
            ⟨.element (newElement b.arena.size name nameSpan raws false), span, some parent, none⟩
          have hsize : b.arena.size < (b.arena.addBelow parent node).size := by
            rw [Arena.size_addBelow]
            exact Nat.lt_succ_self _
          have hgrown := grown_of_spellsAll children hinner { b with
            arena := b.arena.addBelow parent node
            unclosed := b.arena.size :: b.unclosed } rfl hsize
          have hkind := congrArg Node.kind (b.arena.node_addBelow_size (n := node) rfl hparent)
          exact (hgrown.closes rfl hsize hkind endSpan).grown hparent rfl rfl rfl
termination_by structural tree => tree

theorem grown_of_spellsAll : (trees : List MarkupTree) → {tokens : List Token} →
    MarkupTree.SpellsAll trees tokens → (b : TreeBuilder) → {parent : NodeId} →
    {outer : List NodeId} → b.unclosed = parent :: outer → parent < b.arena.size →
    Grown b (tokens.foldl (token true) b) parent trees
  | [], tokens, h, b, parent, outer, hunclosed, hparent => by
      cases h
      exact .refl b parent
  | tree :: trees, tokens, h, b, parent, outer, hunclosed, hparent => by
      cases h with
      | cons first more =>
          rename_i front back
          rw [List.foldl_append]
          have hfirst := grown_of_spells tree first b hunclosed hparent
          have hmore := grown_of_spellsAll trees more (front.foldl (token true) b)
            (hfirst.unclosed.trans hunclosed) (Nat.lt_of_lt_of_le hparent hfirst.size_le)
          exact hfirst.trans hparent hmore
termination_by structural trees => trees

end

/-! ### Whole documents -/

/-- The document after the start tag of its root. -/
def rooted (name : String) (nameSpan : Span) (raws : List RawAttribute) (selfClosing : Bool)
    (span : Span) : TreeBuilder where
  arena := Arena.empty.add
    ⟨.element (newElement 0 name nameSpan raws selfClosing), span, none, none⟩
  unclosed := if selfClosing then [] else [0]
  root := some 0
  topLevel := #[0]

theorem token_root (name : String) (nameSpan : Span) (raws : List RawAttribute)
    (selfClosing : Bool) (span : Span) :
    token true {} ⟨.startTag name nameSpan raws selfClosing, span⟩
      = rooted name nameSpan raws selfClosing span := by
  cases selfClosing <;> rfl

theorem kind_rooted (name : String) (nameSpan : Span) (raws : List RawAttribute)
    (selfClosing : Bool) (span : Span) :
    ((rooted name nameSpan raws selfClosing span).arena.node 0).kind
      = .element (newElement 0 name nameSpan raws selfClosing) :=
  congrArg Node.kind (Arena.empty.node_add_size _)

theorem finish_of_unclosed_nil {b : TreeBuilder} (h : b.unclosed = []) : b.finish = b := by
  rw [finish, h]
  rfl

/-- The tokens that spell an element make a document with the element as its root. -/
theorem ofTokens_of_spells {tree : MarkupTree} {tokens : List Token}
    (helement : tree.isElement) (h : tree.Spells tokens) :
    (ofTokens true tokens).faults = #[] ∧ (ofTokens true tokens).root = some 0
      ∧ ((ofTokens true tokens).arena.tree 0).markup? = some tree := by
  cases h with
  | text => cases helement
  | comment => cases helement
  | @selfClosed name nameSpan span raws =>
      rw [ofTokens, List.foldl_cons, List.foldl_nil, token_root, finish_of_unclosed_nil rfl]
      refine ⟨rfl, rfl, ?_⟩
      rw [Arena.markup?_tree_of_element [] (kind_rooted ..) rfl, ofElement?_newElement]
  | @element name nameSpan span endSpan raws children inner hinner =>
      have hgrown := grown_of_spellsAll children hinner (rooted name nameSpan raws false span) rfl
        Nat.zero_lt_one
      have hcloses := hgrown.closes rfl Nat.zero_lt_one (kind_rooted ..) endSpan
      have htokens : ofTokens true (⟨.startTag name nameSpan raws false, span⟩
            :: (inner ++ [⟨.endTag name, endSpan⟩]))
          = ((inner.foldl (token true) (rooted name nameSpan raws false span)).endTag name
            endSpan).finish := by
        rw [ofTokens, List.foldl_cons, List.foldl_append, token_root]
        rfl
      rw [htokens, finish_of_unclosed_nil hcloses.unclosed]
      exact ⟨hcloses.faults, hcloses.root, hcloses.read⟩

end TreeBuilder

/-- A printed tree is the document: no report is made, and the root reads back as the tree, with
its names, attributes, children, comments and text, and its way of closing. -/
theorem Document.ofSource_print {tree : MarkupTree} (helement : tree.isElement)
    (h : tree.WellFormed) :
    (Document.ofSource (String.ofList tree.print) true).diagnostics.items = []
      ∧ ∃ root, (Document.ofSource (String.ofList tree.print) true).root = some root
        ∧ ((Document.ofSource (String.ofList tree.print) true).arena.tree root).markup?
          = some tree := by
  obtain ⟨hspells, hfaults⟩ := MarkupTree.spells_ofSource h helement
  obtain ⟨hbuilt, hroot, hread⟩ := TreeBuilder.ofTokens_of_spells helement hspells
  refine ⟨?_, 0, hroot, hread⟩
  rw [diagnostics, ofSource]
  simp only [hfaults, hbuilt]
  rfl

/-- A note with an attribute that needs escapes, text, an element that closes itself and a comment
that ends in a dash. -/
theorem Document.ofSource_print_note :
    let note : MarkupTree := .element "note" [("k", "\"<&")]
      [.text "b c", .selfClosed "d" [], .comment "-"]
    note.isElement ∧ note.WellFormed
      ∧ (Document.ofSource (String.ofList note.print) true).diagnostics.items = []
      ∧ ∃ root, (Document.ofSource (String.ofList note.print) true).root = some root
        ∧ ((Document.ofSource (String.ofList note.print) true).arena.tree root).markup?
          = some note := by
  intro note
  have h : note.WellFormed := by
    simp only [note, MarkupTree.WellFormed, MarkupTree.AllWellFormed]
    refine ⟨by decide, ⟨?_, by decide⟩, ⟨by decide, ?_, by decide⟩, by decide,
      ⟨by decide, by simp, by decide⟩, by decide, by decide, by decide, trivial⟩
    · intro a ha
      obtain rfl := List.mem_singleton.mp ha
      decide
    · simp [isBlank]
  exact ⟨rfl, h, Document.ofSource_print rfl h⟩

end PatternMarkup
