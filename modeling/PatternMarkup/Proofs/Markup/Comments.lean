import PatternMarkup.Proofs.Markup.Thinning
import PatternMarkup.Proofs.Markup.TreeFaults
/-!
Comments do not change how a text is read. Whether they become nodes or not, the same faults are
found and the other nodes are the same; those after a comment have other numbers, and the place of
a comment is skipped where it is no node.
-/

namespace PatternMarkup

namespace TreeBuilder

/-! ### Nodes that stay -/

variable {b : TreeBuilder}

theorem attach_of_no_unclosed (h : b.unclosed = []) (kind : NodeKind) (span : Span) :
    b.attach kind span = { b with
      arena := b.arena.add ⟨kind, span, none, none⟩
      topLevel := b.topLevel.push b.arena.size } := by
  rw [attach, h]

theorem size_attach (b : TreeBuilder) (kind : NodeKind) (span : Span) :
    (b.attach kind span).arena.size = b.arena.size + 1 := by
  unfold attach
  split
  · exact Arena.size_add _ _
  · exact (Arena.size_addChild _ _ _).trans (Arena.size_add _ _)

theorem continues_attach (b : TreeBuilder) (kind : NodeKind) (span : Span) :
    b.arena.Continues (b.attach kind span).arena := by
  unfold attach
  split
  · exact Arena.continues_add _ _
  · exact (Arena.continues_add _ _).trans (Arena.continues_addChild _ _ _)

theorem span_attach (b : TreeBuilder) (kind : NodeKind) (span : Span) :
    ((b.attach kind span).arena.node b.arena.size).span = span := by
  unfold attach
  split
  · rw [Arena.node_add_size, Node.withoutChildren, Arena.span_mapElement]
  · rw [Arena.span_addChild, Arena.node_add_size, Node.withoutChildren, Arena.span_mapElement]

theorem isComment_attach (b : TreeBuilder) (kind : NodeKind) (span : Span) :
    ((b.attach kind span).arena.node b.arena.size).isComment = kind.isComment := by
  unfold attach
  split
  · rw [Arena.node_add_size, Node.withoutChildren, Node.isComment_mapElement, Node.isComment]
  · rw [Arena.isComment_addChild, Arena.node_add_size, Node.withoutChildren,
      Node.isComment_mapElement, Node.isComment]

theorem arena_reportFurther (b : TreeBuilder) (nameSpan : Span) :
    (b.reportFurther nameSpan).arena = b.arena := by
  unfold reportFurther
  split <;> rfl

theorem continues_token (keepComments : Bool) (b : TreeBuilder) (t : Token) :
    b.arena.Continues (b.token keepComments t).arena := by
  unfold token
  split
  · rename_i name nameSpan raws selfClosing _
    rw [startTag_eq b name nameSpan raws selfClosing t.span rfl,
      ← arena_reportFurther b nameSpan]
    exact continues_attach _ _ _
  · unfold endTag
    split
    · exact Arena.Continues.refl _
    · rename_i inner closing outer _
      obtain ⟨faults, hfaults⟩ := foldl_reportUnclosed inner.reverse b
      simp only [hfaults]
      exact Arena.continues_close _ _ _
  · simp only
    split
    · exact continues_attach (b.report _ _) _ _
    · exact continues_attach b _ _
  · split
    · exact continues_attach b _ _
    · exact Arena.Continues.refl _
  · exact Arena.Continues.refl _

theorem continues_foldl_token (keepComments : Bool) (b : TreeBuilder) (tokens : List Token) :
    b.arena.Continues (tokens.foldl (token keepComments) b).arena := by
  induction tokens generalizing b with
  | nil => exact Arena.Continues.refl _
  | cons t tokens ih => exact (continues_token keepComments b t).trans (ih _)

/-! ### Two builders -/

/-- The builder `plain` has what `full` has but for the nodes that are not kept, whose places it
skips instead. -/
structure Mirrors (keep : NodeId → Bool) (full plain : TreeBuilder) : Prop where
  arena : Arena.Thins keep full.arena plain.arena
  opens : ∀ u ∈ full.unclosed, u < full.arena.size ∧ keep u = true
  unclosed : plain.unclosed = full.unclosed.map (rank keep)
  root : plain.root = full.root.map (rank keep)
  topLevel : plain.topLevel.toList = (full.topLevel.toList.filter keep).map (rank keep)
  faults : plain.faults = full.faults
  sublist : full.skipped.toList.Sublist plain.skipped.toList
  skipped : plain.skipped.toList.Perm
    (full.skipped.toList ++ Arena.omittedSpans keep full.arena)

variable {keep : NodeId → Bool} {full plain : TreeBuilder}

theorem mirrors_empty (keep : NodeId → Bool) : Mirrors keep {} {} :=
  ⟨Arena.thins_empty keep, nofun, rfl, rfl, rfl, rfl, List.Sublist.refl _, List.Perm.refl _⟩

theorem Mirrors.report (h : Mirrors keep full plain) (fault : MarkupFault) (span : Span) :
    Mirrors keep (full.report fault span) (plain.report fault span) := by
  refine ⟨h.arena, h.opens, h.unclosed, h.root, h.topLevel, ?_, h.sublist, h.skipped⟩
  rw [TreeBuilder.report, TreeBuilder.report, h.faults]

theorem Mirrors.skip (h : Mirrors keep full plain) (span : Span) :
    Mirrors keep (full.skip span) (plain.skip span) := by
  refine ⟨h.arena, h.opens, h.unclosed, h.root, h.topLevel, h.faults, ?_, ?_⟩
  · simp only [TreeBuilder.skip, Array.toList_push]
    exact h.sublist.append (List.Sublist.refl _)
  · simp only [TreeBuilder.skip, Array.toList_push]
    have hpush := h.skipped.append_right [span]
    rw [List.append_assoc] at hpush ⊢
    exact hpush.trans (List.Perm.append_left _ List.perm_append_comm)

/-- What is skipped stays as it is while only nodes are added that are kept. -/
theorem Mirrors.perm_of_kept (h : Mirrors keep full plain) {a : Arena}
    (hcontinues : full.arena.Continues a) (hsize : a.size = full.arena.size + 1)
    (hkeep : keep full.arena.size = true) :
    plain.skipped.toList.Perm (full.skipped.toList ++ Arena.omittedSpans keep a) := by
  rw [Arena.omittedSpans_succ hsize hcontinues.span, if_pos hkeep, List.append_nil]
  exact h.skipped

theorem Mirrors.opens_of_continues (h : Mirrors keep full plain) {a : Arena}
    (hcontinues : full.arena.Continues a) : ∀ u ∈ full.unclosed, u < a.size ∧ keep u = true := by
  intro u hu
  obtain ⟨hlt, hkeep⟩ := h.opens u hu
  exact ⟨Nat.lt_of_lt_of_le hlt hcontinues.size_le, hkeep⟩

/-- A node that is kept is added to both. -/
theorem Mirrors.attach (h : Mirrors keep full plain) (hkeep : keep full.arena.size = true)
    {kind kind' : NodeKind} (span : Span)
    (hkind : ∀ parent : Option NodeId, Node.thinned keep (rank keep) ⟨kind, span, parent, none⟩
      = ⟨kind', span, parent.map (rank keep), none⟩) :
    Mirrors keep (full.attach kind span) (plain.attach kind' span) := by
  have hcontinues := continues_attach full kind span
  have hopens := h.opens_of_continues hcontinues
  have hperm := h.perm_of_kept hcontinues (size_attach full kind span) hkeep
  have hunclosed := h.unclosed
  cases hfull : full.unclosed with
  | nil =>
      rw [hfull] at hunclosed hopens
      rw [attach_of_no_unclosed hfull] at hperm hopens ⊢
      rw [attach_of_no_unclosed hunclosed]
      have harena := h.arena.add hkeep ⟨kind, span, none, none⟩
      rw [hkind] at harena
      refine ⟨harena, by rw [hfull]; exact hopens, ?_, h.root, ?_, h.faults, h.sublist, hperm⟩
      · rw [h.unclosed]
      · simp only [Array.toList_push, List.filter_append, List.map_append, h.topLevel,
          h.arena.size, List.filter_cons_of_pos hkeep]
        rfl
  | cons p outer =>
      obtain ⟨hp, hpKeep⟩ := h.opens p (by rw [hfull]; exact List.mem_cons_self)
      rw [hfull] at hunclosed hopens
      rw [attach_of_unclosed hfull] at hperm hopens ⊢
      rw [attach_of_unclosed hunclosed]
      have harena := h.arena.addBelow hp hpKeep hkeep ⟨kind, span, some p, none⟩
      rw [hkind] at harena
      exact ⟨harena, by rw [hfull]; exact hopens, h.unclosed, h.root, h.topLevel, h.faults,
        h.sublist, hperm⟩

/-- A node that is left out is added to one builder, while the other one skips its place. -/
theorem Mirrors.omit (h : Mirrors keep full plain) (hkeep : keep full.arena.size = false)
    (kind : NodeKind) (span : Span) : Mirrors keep (full.attach kind span) (plain.skip span) := by
  have hcontinues := continues_attach full kind span
  have hopens := h.opens_of_continues hcontinues
  have hperm : (plain.skip span).skipped.toList.Perm
      (full.skipped.toList ++ Arena.omittedSpans keep (full.attach kind span).arena) := by
    rw [Arena.omittedSpans_succ (size_attach full kind span) hcontinues.span, hkeep, span_attach,
      if_neg Bool.false_ne_true, ← List.append_assoc]
    simpa only [TreeBuilder.skip, Array.toList_push] using h.skipped.append_right [span]
  have hsublist : full.skipped.toList.Sublist (plain.skip span).skipped.toList := by
    simp only [TreeBuilder.skip, Array.toList_push]
    exact h.sublist.trans (List.sublist_append_left _ _)
  cases hfull : full.unclosed with
  | nil =>
      rw [attach_of_no_unclosed hfull] at hperm hopens ⊢
      refine ⟨h.arena.addOmitted hkeep _, hopens, h.unclosed, h.root, ?_, h.faults, hsublist, hperm⟩
      rw [Array.toList_push, List.filter_append, List.filter_cons_of_neg (by simp [hkeep]),
        List.filter_nil, List.append_nil]
      exact h.topLevel
  | cons p outer =>
      obtain ⟨hp, -⟩ := h.opens p (by rw [hfull]; exact List.mem_cons_self)
      rw [attach_of_unclosed hfull] at hperm hopens ⊢
      exact ⟨h.arena.addOmittedBelow hp hkeep _, hopens, h.unclosed, h.root, h.topLevel, h.faults,
        hsublist, hperm⟩

/-! ### What tokens do to both -/

theorem Mirrors.isEmpty_unclosed (h : Mirrors keep full plain) :
    plain.unclosed.isEmpty = full.unclosed.isEmpty := by
  rw [h.unclosed, List.isEmpty_map]

theorem Mirrors.isSome_root (h : Mirrors keep full plain) :
    plain.root.isSome = full.root.isSome := by
  rw [h.root, Option.isSome_map]

theorem Mirrors.reportFurther (h : Mirrors keep full plain) (nameSpan : Span) :
    Mirrors keep (full.reportFurther nameSpan) (plain.reportFurther nameSpan) := by
  unfold TreeBuilder.reportFurther
  rw [h.isEmpty_unclosed, h.isSome_root]
  split
  · exact h.report _ _
  · exact h

theorem map_ownedAttributes (number : NodeId → NodeId) (id : NodeId) (raws : List RawAttribute) :
    (ownedAttributes id raws).map (fun a => { a with owner := number a.owner })
      = ownedAttributes (number id) raws := by
  apply List.ext_getElem
  · simp [ownedAttributes]
  · intro i hi hi'
    simp [ownedAttributes]

theorem Mirrors.startTag (h : Mirrors keep full plain) (hkeep : keep full.arena.size = true)
    (name : String) (nameSpan : Span) (raws : List RawAttribute) (selfClosing : Bool)
    (span : Span) :
    Mirrors keep (full.startTag name nameSpan raws selfClosing span)
      (plain.startTag name nameSpan raws selfClosing span) := by
  have hfurther := h.reportFurther nameSpan
  rw [← arena_reportFurther full nameSpan] at hkeep
  rw [startTag_eq full name nameSpan raws selfClosing span rfl,
    startTag_eq plain name nameSpan raws selfClosing span rfl]
  generalize full.reportFurther nameSpan = full, plain.reportFurther nameSpan = plain
    at hfurther hkeep ⊢
  have hattach : Mirrors keep
      (full.attach (.element (newElement full.arena.size name nameSpan raws selfClosing)) span)
      (plain.attach (.element (newElement plain.arena.size name nameSpan raws selfClosing))
        span) := by
    refine hfurther.attach hkeep span fun parent => ?_
    rw [hfurther.arena.size, newElement, newElement, ← map_ownedAttributes]
    rfl
  refine ⟨hattach.arena, ?_, ?_, ?_, hattach.topLevel, hattach.faults, hattach.sublist,
    hattach.skipped⟩
  · have hopens := hattach.opens
    rw [unclosed_attach] at hopens
    cases selfClosing with
    | true => exact hopens
    | false =>
        intro u hu
        rcases List.mem_cons.mp hu with rfl | hu
        · exact ⟨by rw [size_attach]; exact Nat.lt_succ_self _, hkeep⟩
        · exact hopens u hu
  · cases selfClosing with
    | true => exact hfurther.unclosed
    | false => simp [hfurther.unclosed, hfurther.arena.size]
  · simp only [hfurther.isEmpty_unclosed, hfurther.root, hfurther.arena.size, Option.isNone_map]
    split <;> rfl

/-- What is said about an open element is the same in both. -/
theorem Mirrors.element?_rank (h : Mirrors keep full plain) {u : NodeId} (hu : u < full.arena.size)
    (hkeep : keep u = true) :
    (plain.arena.element? (rank keep u)).map (fun e => (e.name, e.nameSpan))
      = (full.arena.element? u).map fun e => (e.name, e.nameSpan) := by
  rw [Arena.element?, h.arena.nodes u hu hkeep, Arena.element?]
  obtain ⟨kind, span, parent, origin⟩ := full.arena.node u
  cases kind <;> rfl

theorem Mirrors.isElementNamed_rank (h : Mirrors keep full plain) {u : NodeId}
    (hu : u < full.arena.size) (hkeep : keep u = true) (name : String) :
    isElementNamed plain.arena name (rank keep u) = isElementNamed full.arena name u := by
  have hnames := congrArg (Option.map Prod.fst) (h.element?_rank hu hkeep)
  simp only [Option.map_map] at hnames
  rw [isElementNamed, isElementNamed]
  exact congrArg (· == some name) hnames

theorem Mirrors.reportUnclosed (h : Mirrors keep full plain) {u : NodeId}
    (hu : u < full.arena.size) (hkeep : keep u = true) :
    Mirrors keep (full.reportUnclosed u) (plain.reportUnclosed (rank keep u)) := by
  have helement := h.element?_rank hu hkeep
  unfold TreeBuilder.reportUnclosed
  cases hfull : full.arena.element? u with
  | none =>
      rw [hfull, Option.map_none, Option.map_eq_none_iff] at helement
      rw [helement]
      exact h
  | some e =>
      rw [hfull, Option.map_some] at helement
      obtain ⟨e', he', heq⟩ := Option.map_eq_some_iff.mp helement
      obtain ⟨hname, hspan⟩ := Prod.mk.inj heq
      rw [he']
      simp only [hname, hspan]
      exact h.report _ _

theorem Mirrors.foldl_reportUnclosed (h : Mirrors keep full plain) {ids : List NodeId}
    (hids : ∀ u ∈ ids, u < full.arena.size ∧ keep u = true) :
    Mirrors keep (ids.foldl TreeBuilder.reportUnclosed full)
      ((ids.map (rank keep)).foldl TreeBuilder.reportUnclosed plain) := by
  induction ids generalizing full plain with
  | nil => exact h
  | cons u rest ih =>
      obtain ⟨hu, hkeep⟩ := hids u List.mem_cons_self
      refine ih (h.reportUnclosed hu hkeep) fun v hv => ?_
      obtain ⟨faults, hfaults⟩ := TreeBuilder.foldl_reportUnclosed [u] full
      rw [List.foldl_cons, List.foldl_nil] at hfaults
      rw [hfaults]
      exact hids v (List.mem_cons_of_mem u hv)

theorem Mirrors.close (h : Mirrors keep full plain) (hkeep : keep full.arena.size = true)
    {inner outer : List NodeId} {u : NodeId} (hunclosed : full.unclosed = inner ++ u :: outer)
    (name : String) (span : Span) :
    Mirrors keep
      { full with
        arena := full.arena.close u ⟨.endTag name, span, some u, none⟩, unclosed := outer }
      { plain with
        arena := plain.arena.close (rank keep u) ⟨.endTag name, span, some (rank keep u), none⟩
        unclosed := outer.map (rank keep) } := by
  have hcontinues := full.arena.continues_close u ⟨.endTag name, span, some u, none⟩
  have hopens := h.opens_of_continues hcontinues
  rw [hunclosed] at hopens
  have hu := (hopens u (by simp)).2
  refine ⟨h.arena.close hu hkeep _, fun v hv => hopens v (by simp [hv]), rfl, h.root, h.topLevel,
    h.faults, h.sublist, ?_⟩
  exact h.perm_of_kept hcontinues (full.arena.size_close _ _) hkeep

theorem span_map {f : NodeId → NodeId} {p q : NodeId → Bool} {ids : List NodeId}
    (h : ∀ u ∈ ids, q (f u) = p u) :
    (ids.map f).span q = ((ids.span p).1.map f, (ids.span p).2.map f) := by
  rw [List.span_eq_takeWhile_dropWhile, List.span_eq_takeWhile_dropWhile]
  induction ids with
  | nil => rfl
  | cons u rest ih =>
      have hrest := ih fun v hv => h v (List.mem_cons_of_mem u hv)
      have hu := h u List.mem_cons_self
      cases hp : p u with
      | true => simp_all
      | false => simp_all

theorem Mirrors.span_unclosed (h : Mirrors keep full plain) (name : String) :
    plain.unclosed.span (fun id => !isElementNamed plain.arena name id)
      = ((full.unclosed.span fun id => !isElementNamed full.arena name id).1.map (rank keep),
        (full.unclosed.span fun id => !isElementNamed full.arena name id).2.map (rank keep)) := by
  rw [h.unclosed]
  refine span_map fun u hu => ?_
  obtain ⟨hlt, hkeep⟩ := h.opens u hu
  rw [h.isElementNamed_rank hlt hkeep]

/-- An end tag closes the same element in both, if there is one. -/
theorem Mirrors.endTag (h : Mirrors keep full plain) {name : String} {span : Span}
    (hkeep : ∀ i < (full.endTag name span).arena.size,
      keep i = !((full.endTag name span).arena.node i).isComment) :
    Mirrors keep (full.endTag name span) (plain.endTag name span) := by
  have hsplit := List.takeWhile_append_dropWhile
    (p := fun id => !isElementNamed full.arena name id) (l := full.unclosed)
  unfold TreeBuilder.endTag at hkeep ⊢
  rw [h.span_unclosed]
  rw [List.span_eq_takeWhile_dropWhile] at hkeep ⊢
  generalize full.unclosed.takeWhile (fun id => !isElementNamed full.arena name id) = inner
    at hsplit hkeep ⊢
  cases hdrop : full.unclosed.dropWhile fun id => !isElementNamed full.arena name id with
  | nil => exact (h.report _ _).skip span
  | cons u outer =>
      rw [hdrop] at hsplit hkeep
      have hinner : ∀ v ∈ inner.reverse, v < full.arena.size ∧ keep v = true := by
        intro v hv
        refine h.opens v ?_
        rw [← hsplit]
        exact List.mem_append_left _ (List.mem_reverse.mp hv)
      have hreported := h.foldl_reportUnclosed hinner
      obtain ⟨faults, hfaults⟩ := TreeBuilder.foldl_reportUnclosed inner.reverse full
      rw [hfaults] at hreported
      simp only [hfaults] at hkeep
      simp only [List.map_cons, ← List.map_reverse, hfaults]
      have hclosed : keep full.arena.size = true := by
        have hlt : full.arena.size
            < (full.arena.close u ⟨.endTag name, span, some u, none⟩).size := by
          rw [Arena.size_close]
          exact Nat.lt_succ_self _
        rw [hkeep full.arena.size hlt]
        exact congrArg not (full.arena.isComment_close u ⟨.endTag name, span, some u, none⟩)
      exact hreported.close hclosed hsplit.symm name span

/-- One more token keeps the builders alike, where every node but the comments is kept. -/
theorem Mirrors.token (h : Mirrors keep full plain) {t : Token}
    (hkeep : ∀ i < (full.token true t).arena.size,
      keep i = !((full.token true t).arena.node i).isComment) :
    Mirrors keep (full.token true t) (plain.token false t) := by
  have hattach : ∀ (c : TreeBuilder) (kind : NodeKind), c.arena = full.arena →
      (full.token true t).arena = (c.attach kind t.span).arena →
      keep full.arena.size = !kind.isComment := by
    intro c kind hc harena
    rw [harena, size_attach, hc] at hkeep
    rw [hkeep full.arena.size (Nat.lt_succ_self _), ← hc, isComment_attach]
  unfold TreeBuilder.token at hkeep hattach ⊢
  cases hkind : t.kind with
  | startTag name nameSpan raws selfClosing =>
      rw [hkind] at hattach
      refine h.startTag ?_ name nameSpan raws selfClosing t.span
      refine hattach (full.reportFurther nameSpan)
        (.element (newElement (full.reportFurther nameSpan).arena.size name nameSpan raws
          selfClosing)) (arena_reportFurther _ _) ?_
      simp only [startTag_eq full name nameSpan raws selfClosing t.span rfl]
  | endTag name =>
      rw [hkind] at hkeep
      exact h.endTag hkeep
  | text content blank =>
      rw [hkind] at hattach
      have htext : ∀ parent : Option NodeId, Node.thinned keep (rank keep)
          ⟨.text content blank, t.span, parent, none⟩
            = ⟨.text content blank, t.span, parent.map (rank keep), none⟩ := fun _ => rfl
      have hreport : Mirrors keep
          (if full.unclosed.isEmpty && !blank then full.report .textOutsideRoot t.span else full)
          (if full.unclosed.isEmpty && !blank then plain.report .textOutsideRoot t.span
            else plain) := by
        split
        · exact h.report _ _
        · exact h
      have harena :
          (if full.unclosed.isEmpty && !blank then full.report .textOutsideRoot t.span
            else full).arena = full.arena := by
        split <;> rfl
      have hkept := hattach _ _ harena rfl
      rw [← harena] at hkept
      simp only [h.isEmpty_unclosed]
      exact hreport.attach hkept t.span htext
  | comment content =>
      rw [hkind] at hattach
      exact h.omit (hattach full _ rfl rfl) _ _
  | skipped => exact h.skip t.span

theorem Mirrors.foldl_token {tokens : List Token} (h : Mirrors keep full plain)
    (hkeep : ∀ i < (tokens.foldl (TreeBuilder.token true) full).arena.size,
      keep i = !((tokens.foldl (TreeBuilder.token true) full).arena.node i).isComment) :
    Mirrors keep (tokens.foldl (TreeBuilder.token true) full)
      (tokens.foldl (TreeBuilder.token false) plain) := by
  induction tokens generalizing full plain with
  | nil => exact h
  | cons t rest ih =>
      refine ih (h.token fun i hi => ?_) hkeep
      have hcontinues := continues_foldl_token true (full.token true t) rest
      rw [← hcontinues.isComment i hi]
      exact hkeep i (Nat.lt_of_lt_of_le hi hcontinues.size_le)

theorem Mirrors.finish (h : Mirrors keep full plain) : Mirrors keep full.finish plain.finish := by
  unfold TreeBuilder.finish
  rw [h.unclosed, ← List.map_reverse]
  exact h.foldl_reportUnclosed fun u hu => h.opens u (List.mem_reverse.mp hu)

end TreeBuilder

namespace Document

/-- Whether the node of the given number is there where comments are no nodes. -/
def isKept (doc : Document) (id : NodeId) : Bool := !(doc.arena.node id).isComment

/-- The number that a node has where comments are no nodes. -/
def plainNumber (doc : Document) (id : NodeId) : NodeId := rank doc.isKept id

/-- The document `plain` has all that `full` has but the comments, which it skips. -/
structure OmitsComments (full plain : Document) : Prop where
  /-- The other nodes are those of `plain`, in their order. -/
  numbers : ((List.range full.arena.size).filter full.isKept).map full.plainNumber
    = List.range plain.arena.size
  nodes : ∀ id < full.arena.size, (full.arena.node id).isComment = false →
    plain.arena.node (full.plainNumber id)
      = (full.arena.node id).thinned full.isKept full.plainNumber
  root : plain.root = full.root.map full.plainNumber
  topLevel : plain.topLevel = (full.topLevel.filter full.isKept).map full.plainNumber
  /-- The places of the comments come to those skipped anyway, which stay in their order. -/
  skipped : plain.skipped.Perm (full.skipped ++ (((List.range full.arena.size).filter fun id =>
    (full.arena.node id).isComment).map fun id => (full.arena.node id).span))
  sublist : full.skipped.Sublist plain.skipped
  diagnostics : plain.diagnostics = full.diagnostics

/-- Whether comments become nodes makes no difference to anything else that is read. -/
theorem omitsComments_ofSource (source : String) :
    (ofSource source true).OmitsComments (ofSource source false) := by
  have harena : ((TokenStream.ofSource source).tokens.foldl (TreeBuilder.token true) {}).arena
      = (ofSource source true).arena := by
    obtain ⟨faults, hfaults⟩ := TreeBuilder.foldl_reportUnclosed
      ((TokenStream.ofSource source).tokens.foldl (TreeBuilder.token true) {}).unclosed.reverse
      ((TokenStream.ofSource source).tokens.foldl (TreeBuilder.token true) {})
    rw [ofSource, TreeBuilder.ofTokens, TreeBuilder.finish, hfaults]
  have hmirrors : TreeBuilder.Mirrors (ofSource source true).isKept
      (TreeBuilder.ofTokens true (TokenStream.ofSource source).tokens)
      (TreeBuilder.ofTokens false (TokenStream.ofSource source).tokens) := by
    apply TreeBuilder.Mirrors.finish
    apply TreeBuilder.Mirrors.foldl_token (TreeBuilder.mirrors_empty _)
    intro i hi
    rw [harena]
    rfl
  obtain ⟨hthins, -, -, hroot, htopLevel, hfaults, hsublist, hskipped⟩ := hmirrors
  refine ⟨?_, fun id hid hcomment => ?_, hroot, htopLevel, ?_, hsublist, ?_⟩
  · exact (map_rank_range _).trans (congrArg List.range hthins.size.symm)
  · exact hthins.nodes id hid (by rw [isKept, hcomment]; rfl)
  · simp only [Arena.omittedSpans, isKept, Bool.not_not] at hskipped
    exact hskipped
  · rw [diagnostics, diagnostics, ofSource, ofSource, hfaults]

end Document

end PatternMarkup
