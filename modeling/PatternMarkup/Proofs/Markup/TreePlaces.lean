import PatternMarkup.Markup.Document
import PatternMarkup.Proofs.Markup.PassedAttributes
import PatternMarkup.Proofs.Markup.ScannedPlaces
/-!
The places in a document. Its nodes, what it skips and the faults of its tree get their spans from
tokens, so these are spans of the source too. A piece of a verbatim value stands where the span of
its byte range says.
-/

namespace PatternMarkup

/-- The attribute as it stands in its start tag. -/
def Attribute.raw (a : Attribute) : RawAttribute :=
  ⟨a.name, a.nameSpan, a.value, a.valueSpan, a.verbatim⟩

/-- An attribute as it stands in the source. Every range of whole characters of a verbatim value
has the span of those characters. -/
structure Attribute.Faithful (a : Attribute) (source : String) : Prop where
  raw : a.raw.Faithful source
  subSpan : a.verbatim = true → ∀ range piece, sliceBytes? a.value.toList range = some piece →
    (a.subSpan range).Marks source piece ∧
      (a.subSpan range).offset = a.valueSpan.offset + range.start

/-- The name of an element is the text of its span, and the attributes are as they stand. -/
structure Element.Faithful (e : Element) (source : String) : Prop where
  nameSpan : e.nameSpan.Faithful source
  name : e.nameSpan.slice? source = some e.name.toList
  attributes : ∀ a ∈ e.attributes, a.Faithful source

/-- A node covers source text, and so do the names and values in it. -/
structure Node.Faithful (n : Node) (source : String) : Prop where
  span : n.span.Faithful source
  element : ∀ e, n.kind = .element e → e.Faithful source

variable {source : String}

theorem Attribute.faithful_of_raw {a : Attribute} (h : a.raw.Faithful source) :
    a.Faithful source := by
  refine ⟨h, fun hverbatim range piece hpiece => ?_⟩
  have hvalue := h.valueSpan.marks (h.verbatim.mp hverbatim)
  rw [Attribute.subSpan, if_pos hverbatim]
  exact hvalue.narrow hpiece

theorem Node.faithful_absent (source : String) : absent.Faithful source :=
  ⟨Span.faithful_origin source, nofun⟩

theorem Node.Faithful.mapElement {n : Node} (h : n.Faithful source) {f : Element → Element}
    (hf : ∀ e, e.Faithful source → (f e).Faithful source) : (n.mapElement f).Faithful source := by
  obtain ⟨hspan, helement⟩ := h
  obtain ⟨kind, span, parent, origin⟩ := n
  cases kind with
  | element e =>
      refine ⟨hspan, fun e' he' => ?_⟩
      obtain rfl := NodeKind.element.inj he'
      exact hf e (helement e rfl)
  | _ => exact ⟨hspan, helement⟩

/-- An attribute that an element has stands in the source. -/
theorem Element.Faithful.attribute? {e : Element} (h : e.Faithful source) {name : String}
    {a : Attribute} (ha : e.attribute? name = some a) : a.Faithful source :=
  h.attributes a (List.mem_of_find?_eq_some ha)

theorem Node.Faithful.of_element? {n : Node} (h : n.Faithful source) {e : Element}
    (he : n.element? = some e) : e.Faithful source := by
  obtain ⟨kind, span, parent, origin⟩ := n
  cases kind with
  | element e' => exact h.element e (congrArg NodeKind.element (Option.some.inj he))
  | _ => cases he

namespace Arena

/-- Every node stands where its spans say. -/
def Faithful (a : Arena) (source : String) : Prop := ∀ id, (a.node id).Faithful source

variable {a : Arena}

theorem Faithful.add (h : a.Faithful source) {n : Node} (hn : n.Faithful source) :
    (a.add n).Faithful source := by
  intro id
  rcases Nat.lt_trichotomy id a.size with hid | rfl | hid
  · rw [node_add_of_lt a n hid]
    exact h id
  · rw [node_add_size]
    exact hn.mapElement fun e he => ⟨he.nameSpan, he.name, he.attributes⟩
  · rw [node_of_size_le _ (by rw [size_add]; exact hid)]
    exact Node.faithful_absent source

theorem Faithful.addChild (h : a.Faithful source) (parent child : NodeId) :
    (a.addChild parent child).Faithful source := by
  intro id
  by_cases hid : id = parent
  · subst hid
    by_cases hlt : id < child ∧ child < a.size
    · rw [node_addChild_self a hlt.1 hlt.2]
      exact (h id).mapElement fun e he => ⟨he.nameSpan, he.name, he.attributes⟩
    · have hsame : a.addChild id child = a := dif_neg hlt
      rw [hsame]
      exact h id
  · rw [node_addChild_of_ne a child hid]
    exact h id

theorem Faithful.updateElement (h : a.Faithful source) (id : NodeId) {f : Element → Element}
    {hf : ∀ e, (f e).children = e.children}
    (hfaithful : ∀ e, e.Faithful source → (f e).Faithful source) :
    (a.updateElement id f hf).Faithful source := by
  intro other
  by_cases hother : other = id
  · subst hother
    rw [node_updateElement_self]
    exact (h other).mapElement hfaithful
  · rw [node_updateElement_of_ne _ _ _ hother]
    exact h other

theorem Faithful.close (h : a.Faithful source) (u : NodeId) {n : Node} (hn : n.Faithful source) :
    (a.close u n).Faithful source :=
  (h.add hn).updateElement u fun _ he => ⟨he.nameSpan, he.name, he.attributes⟩

end Arena

/-! ### Trees and copies -/

namespace Tree

mutual

/-- The nodes of a tree stand where their spans say. -/
def Faithful (source : String) : Tree → Prop
  | node _ content children => content.Faithful source ∧ AllFaithful source children

/-- The nodes of several trees do. -/
def AllFaithful (source : String) : List Tree → Prop
  | [] => True
  | tree :: rest => tree.Faithful source ∧ AllFaithful source rest

end

theorem allFaithful_iff {trees : List Tree} :
    AllFaithful source trees ↔ ∀ tree ∈ trees, tree.Faithful source := by
  induction trees with
  | nil => simp [AllFaithful]
  | cons tree rest ih => simp [AllFaithful, ih]

theorem Faithful.content {tree : Tree} (h : tree.Faithful source) :
    tree.content.Faithful source := by
  obtain ⟨id, content, children⟩ := tree
  exact h.1

theorem Faithful.children {tree : Tree} (h : tree.Faithful source) :
    AllFaithful source tree.children := by
  obtain ⟨id, content, children⟩ := tree
  exact h.2

mutual

/-- The attributes that a walk through a tree comes by stand in the source. -/
theorem Faithful.visits (enters : NodeId → Element → Bool) {x : Attribute} {owner : NodeId} :
    ∀ {tree : Tree}, tree.Faithful source → .attr owner x ∈ tree.visits enters → x.Faithful source
  | .node id content children, ⟨hcontent, hchildren⟩, hx => by
      rw [Tree.visits] at hx
      split at hx
      · next e he =>
          have hattributes := (hcontent.element e he).attributes
          rcases List.mem_cons.mp hx with hx | hx
          · cases hx
          · split at hx
            · rcases List.mem_append.mp hx with hx | hx
              · obtain ⟨a, ha, heq⟩ := List.mem_map.mp hx
                cases heq
                exact hattributes x ha
              · exact AllFaithful.visits enters hchildren hx
            · cases hx
      · cases List.mem_singleton.mp hx
      · cases List.mem_singleton.mp hx
      · cases hx

theorem AllFaithful.visits (enters : NodeId → Element → Bool) {x : Attribute} {owner : NodeId} :
    ∀ {trees : List Tree}, AllFaithful source trees →
      .attr owner x ∈ visitsOfAll enters trees → x.Faithful source
  | [], _, hx => by cases hx
  | tree :: rest, ⟨htree, hrest⟩, hx => by
      rw [visitsOfAll] at hx
      rcases List.mem_append.mp hx with hx | hx
      · exact Faithful.visits enters htree hx
      · exact AllFaithful.visits enters hrest hx

end

end Tree

namespace Arena

theorem Faithful.tree {a : Arena} (h : a.Faithful source) (id : NodeId) :
    (a.tree id).Faithful source := by
  rw [tree_eq]
  refine ⟨h id, Tree.allFaithful_iff.mpr fun tree htree => ?_⟩
  obtain ⟨c, hc, rfl⟩ := List.mem_map.mp htree
  have hbounds := a.children_bounds hc
  exact h.tree c
termination_by a.size - id
decreasing_by omega

mutual

theorem Faithful.copyTree : ∀ {a : Arena} (parent : Option NodeId) {tree : Tree},
    a.Faithful source → tree.Faithful source → (a.copyTree parent tree).Faithful source
  | a, parent, .node id content children, h, ⟨hcontent, hchildren⟩ => by
      rw [Arena.copyTree]
      have hcopy : (content.mapElement fun e => { e with endTag := none }).Faithful source :=
        hcontent.mapElement fun e he => ⟨he.nameSpan, he.name, he.attributes⟩
      exact Faithful.copyTrees (h.add ⟨hcopy.span, hcopy.element⟩) hchildren

theorem Faithful.copyTrees : ∀ {a : Arena} {parent : NodeId} {trees : List Tree},
    a.Faithful source → Tree.AllFaithful source trees →
      (a.copyTrees parent trees).Faithful source
  | a, parent, [], h, _ => h
  | a, parent, tree :: rest, h, ⟨htree, hrest⟩ => by
      rw [Arena.copyTrees]
      exact Faithful.copyTrees ((Faithful.copyTree (some parent) h htree).addChild _ _) hrest

end

theorem Faithful.copySubtree {a : Arena} (h : a.Faithful source) (id : NodeId)
    {overrides : List Attribute} (hoverrides : ∀ o ∈ overrides, o.Faithful source) :
    (a.copySubtree id overrides).Faithful source := by
  refine (Faithful.copyTree _ h (h.tree id)).updateElement _ fun e he =>
    ⟨he.nameSpan, he.name, fun x hx => ?_⟩
  rcases mem_of_mem_overrides hx with hx | hx
  · exact he.attributes x hx
  · exact hoverrides x hx

end Arena

/-! ### Building a tree -/

namespace TreeBuilder

/-- What was built so far stands where its spans say. -/
structure Faithful (b : TreeBuilder) (source : String) : Prop where
  arena : b.arena.Faithful source
  skipped : ∀ span ∈ b.skipped, span.Faithful source
  faults : ∀ f ∈ b.faults, f.span.Faithful source

variable {b : TreeBuilder}

theorem Faithful.report (h : b.Faithful source) (fault : MarkupFault) {span : Span}
    (hspan : span.Faithful source) : (b.report fault span).Faithful source := by
  refine ⟨h.arena, h.skipped, fun f hf => ?_⟩
  rcases Array.mem_push.mp hf with hf | rfl
  · exact h.faults f hf
  · exact hspan

theorem Faithful.skip (h : b.Faithful source) {span : Span} (hspan : span.Faithful source) :
    (b.skip span).Faithful source := by
  refine ⟨h.arena, fun s hs => ?_, h.faults⟩
  rcases Array.mem_push.mp hs with hs | rfl
  · exact h.skipped s hs
  · exact hspan

theorem Faithful.reportUnclosed (h : b.Faithful source) (id : NodeId) :
    (b.reportUnclosed id).Faithful source := by
  unfold TreeBuilder.reportUnclosed
  split
  · rename_i e he
    have hkind : (b.arena.node id).kind = .element e := by
      rw [Arena.element?, Node.element?] at he
      split at he
      · cases he
        assumption
      · cases he
    exact h.report _ ((h.arena id).element e hkind).nameSpan
  · exact h

theorem Faithful.foldl_reportUnclosed (ids : List NodeId) (h : b.Faithful source) :
    (ids.foldl TreeBuilder.reportUnclosed b).Faithful source := by
  induction ids generalizing b with
  | nil => exact h
  | cons id ids ih => exact ih (h.reportUnclosed id)

theorem Faithful.attach (h : b.Faithful source) {kind : NodeKind} {span : Span}
    (hspan : span.Faithful source) (hkind : ∀ e, kind = .element e → e.Faithful source) :
    (b.attach kind span).Faithful source := by
  unfold TreeBuilder.attach
  simp only
  split
  · exact ⟨h.arena.add ⟨hspan, hkind⟩, h.skipped, h.faults⟩
  · exact ⟨(h.arena.add ⟨hspan, hkind⟩).addChild _ _, h.skipped, h.faults⟩

theorem faithful_ownedAttributes (owner : NodeId) {raws : List RawAttribute}
    (hraws : ∀ raw ∈ raws, raw.Faithful source) :
    ∀ a ∈ ownedAttributes owner raws, a.Faithful source := by
  intro a ha
  obtain ⟨i, hi, rfl⟩ := List.mem_mapIdx.mp ha
  exact Attribute.faithful_of_raw (hraws raws[i] (List.getElem_mem hi))

theorem Faithful.startTag (h : b.Faithful source) {name : String} {nameSpan span : Span}
    {raws : List RawAttribute} (selfClosing : Bool) (hspan : span.Faithful source)
    (hnameSpan : nameSpan.Faithful source)
    (hname : nameSpan.slice? source = some name.toList)
    (hraws : ∀ raw ∈ raws, raw.Faithful source) :
    (b.startTag name nameSpan raws selfClosing span).Faithful source := by
  have hreported : Faithful (if b.unclosed.isEmpty && b.root.isSome
      then b.report .multipleRoots nameSpan else b) source := by
    split
    · exact h.report _ hnameSpan
    · exact h
  unfold TreeBuilder.startTag
  simp only
  generalize (if b.unclosed.isEmpty && b.root.isSome
    then b.report .multipleRoots nameSpan else b) = c at hreported ⊢
  have hattached : (c.attach (.element ⟨name, nameSpan, ownedAttributes c.arena.size raws, [], none,
      selfClosing⟩) span).Faithful source := by
    refine hreported.attach hspan fun e he => ?_
    obtain rfl := NodeKind.element.inj he
    exact ⟨hnameSpan, hname, faithful_ownedAttributes c.arena.size hraws⟩
  split <;> split <;> exact ⟨hattached.arena, hattached.skipped, hattached.faults⟩

theorem Faithful.endTag (h : b.Faithful source) (name : String) {span : Span}
    (hspan : span.Faithful source) : (b.endTag name span).Faithful source := by
  unfold TreeBuilder.endTag
  split
  · exact (h.report _ hspan).skip hspan
  · rename_i inner closing outer _
    have hreported := h.foldl_reportUnclosed inner.reverse
    exact ⟨hreported.arena.close closing ⟨hspan, nofun⟩, hreported.skipped, hreported.faults⟩

theorem Faithful.token (h : b.Faithful source) (keepComments : Bool) {t : Token}
    (ht : t.Faithful source) : (b.token keepComments t).Faithful source := by
  obtain ⟨hspan, hkind⟩ := ht
  unfold TreeBuilder.token
  cases hcases : t.kind with
  | startTag name nameSpan raws selfClosing =>
      rw [hcases] at hkind
      obtain ⟨hnameSpan, hname, hraws⟩ := hkind
      exact h.startTag selfClosing hspan hnameSpan hname hraws
  | endTag name => exact h.endTag name hspan
  | text content blank =>
      simp only
      split
      · exact (h.report _ hspan).attach hspan nofun
      · exact h.attach hspan nofun
  | comment content =>
      simp only
      split
      · exact h.attach hspan nofun
      · exact h.skip hspan
  | skipped => exact h.skip hspan

theorem Faithful.foldl_token (keepComments : Bool) {tokens : List Token}
    (htokens : ∀ t ∈ tokens, t.Faithful source) (h : b.Faithful source) :
    (tokens.foldl (TreeBuilder.token keepComments) b).Faithful source := by
  induction tokens generalizing b with
  | nil => exact h
  | cons t tokens ih =>
      have ht := htokens t List.mem_cons_self
      exact ih (fun u hu => htokens u (List.mem_cons_of_mem t hu)) (h.token keepComments ht)

theorem faithful_ofTokens (keepComments : Bool) {tokens : List Token}
    (htokens : ∀ t ∈ tokens, t.Faithful source) :
    (ofTokens keepComments tokens).Faithful source := by
  have hempty : Faithful {} source := by
    refine ⟨fun id => ?_, nofun, nofun⟩
    rw [Arena.node_of_size_le _ (Nat.zero_le id)]
    exact Node.faithful_absent source
  exact (hempty.foldl_token keepComments htokens).foldl_reportUnclosed _

end TreeBuilder

namespace Document

/-- The nodes of a document, what it skips and its faults stand where their spans say. -/
structure Faithful (doc : Document) (source : String) : Prop where
  nodes : ∀ id < doc.arena.size, (doc.arena.node id).Faithful source
  skipped : ∀ span ∈ doc.skipped, span.Faithful source
  faults : ∀ f ∈ doc.faults, f.span.Faithful source

/-- Every span that is read from a source is one of the source, with the line and the column of
its start. -/
theorem spans_faithful (source : String) (keepComments : Bool) :
    (TokenStream.ofSource source).Faithful source ∧
      (ofSource source keepComments).Faithful source := by
  have hstream := TokenStream.faithful_ofSource source
  have htree := TreeBuilder.faithful_ofTokens keepComments hstream.tokens
  refine ⟨hstream, fun id _ => htree.arena id, fun span hspan => ?_, fun f hf => ?_⟩
  · exact htree.skipped span (Array.mem_toList_iff.mp hspan)
  · rcases List.mem_append.mp hf with hf | hf
    · exact hstream.faults f hf
    · exact htree.faults f (Array.mem_toList_iff.mp hf)

end Document

end PatternMarkup
