import PatternMarkup.Markup.Walk
import PatternMarkup.Proofs.Markup.Nodes
import PatternMarkup.Proofs.Markup.Tiling
/-!
Nothing is lost in building the tree either. Every token becomes one node or one skipped place,
and copies of nodes count as no part of the source, so a document gives its source back however
often its nodes are copied.
-/

namespace PatternMarkup

/-! ### The places that nodes were read from -/

namespace Arena

/-- The places of the nodes that were read, not copied, in the order of their numbers. -/
def readSpans (a : Arena) : List Span := (a.nodes.toList.filter (·.origin.isNone)).map (·.span)

@[simp] theorem readSpans_empty : readSpans .empty = [] := rfl

theorem readSpans_add_read (a : Arena) {n : Node} (h : n.origin = none) :
    (a.add n).readSpans = a.readSpans ++ [n.span] := by
  obtain ⟨kind, span, parent, origin⟩ := n
  obtain rfl : origin = none := h
  cases kind <;> simp [readSpans, add, Node.withoutChildren, Node.mapElement]

theorem readSpans_add_copy (a : Arena) {n : Node} (h : n.origin.isSome) :
    (a.add n).readSpans = a.readSpans := by
  obtain ⟨kind, span, parent, origin⟩ := n
  obtain ⟨source, rfl⟩ := Option.isSome_iff_exists.1 h
  cases kind <;> simp [readSpans, add, Node.withoutChildren, Node.mapElement]

/-- Changing a node in place keeps the places read, if it keeps the node's own. -/
theorem filter_map_modify {f : Node → Node} (hspan : ∀ n, (f n).span = n.span)
    (horigin : ∀ n, (f n).origin = n.origin) (nodes : List Node) (i : Nat) :
    ((nodes.modify i f).filter (·.origin.isNone)).map (·.span) =
      (nodes.filter (·.origin.isNone)).map (·.span) := by
  induction nodes generalizing i with
  | nil => simp
  | cons n rest ih =>
      cases i with
      | zero =>
          rw [List.modify_zero_cons, List.filter_cons, List.filter_cons, horigin n]
          split <;> simp [hspan]
      | succ i =>
          rw [List.modify_succ_cons, List.filter_cons, List.filter_cons]
          split <;> simp [ih]

theorem span_mapElement (f : Element → Element) (n : Node) : (n.mapElement f).span = n.span := by
  obtain ⟨kind, span, parent, origin⟩ := n
  cases kind <;> rfl

@[simp] theorem readSpans_updateElement (a : Arena) (id : NodeId) (f : Element → Element)
    (hf : ∀ e, (f e).children = e.children) :
    (a.updateElement id f hf).readSpans = a.readSpans := by
  simp only [readSpans, updateElement, update, Array.toList_modify]
  exact filter_map_modify (span_mapElement f) (Node.origin_mapElement · f) _ _

@[simp] theorem readSpans_addChild (a : Arena) (parent child : NodeId) :
    (a.addChild parent child).readSpans = a.readSpans := by
  unfold addChild
  split
  · simp only [readSpans, Array.toList_modify]
    exact filter_map_modify (span_mapElement _) (Node.origin_mapElement · _) _ _
  · rfl

/-! ### Copies -/

mutual

theorem readSpans_copyTree (parent : Option NodeId) (a : Arena) :
    (tree : Tree) → (copyTree parent a tree).readSpans = a.readSpans
  | .node id content children => by
      rw [copyTree, readSpans_copyTrees]
      exact readSpans_add_copy a rfl

theorem readSpans_copyTrees (parent : NodeId) (a : Arena) :
    (trees : List Tree) → (copyTrees parent a trees).readSpans = a.readSpans
  | [] => rfl
  | tree :: rest => by
      rw [copyTrees, readSpans_copyTrees, readSpans_addChild, readSpans_copyTree]

end

theorem readSpans_copySubtree (a : Arena) (id : NodeId) (overrides : List Attribute) :
    (a.copySubtree id overrides).readSpans = a.readSpans := by
  rw [copySubtree, readSpans_updateElement, readSpans_copyTree]

/-- Copies one subtree after another; each may be one of the copies made before. -/
def copySubtrees (a : Arena) (copies : List (NodeId × List Attribute)) : Arena :=
  copies.foldl (fun a copy => a.copySubtree copy.1 copy.2) a

theorem readSpans_copySubtrees (a : Arena) (copies : List (NodeId × List Attribute)) :
    (a.copySubtrees copies).readSpans = a.readSpans := by
  induction copies generalizing a with
  | nil => rfl
  | cons copy rest ih => exact (ih _).trans (readSpans_copySubtree a copy.1 copy.2)

end Arena

/-! ### The places a tree under construction keeps -/

namespace TreeBuilder

/-- The places taken in so far: those of the nodes, then those skipped. -/
def spans (b : TreeBuilder) : List Span := b.arena.readSpans ++ b.skipped.toList

@[simp] theorem spans_report (b : TreeBuilder) (fault : MarkupFault) (span : Span) :
    (b.report fault span).spans = b.spans := rfl

theorem spans_skip (b : TreeBuilder) (span : Span) :
    (b.skip span).spans = b.spans ++ [span] := by
  simp [spans, skip]

/-- A node added at the end is one more place among those of the nodes. -/
theorem perm_spans_of_readSpans {b b' : TreeBuilder} {span : Span}
    (harena : b'.arena.readSpans = b.arena.readSpans ++ [span])
    (hskipped : b'.skipped = b.skipped) :
    b'.spans.Perm (b.spans ++ [span]) := by
  rw [spans, spans, harena, hskipped, List.append_assoc, List.append_assoc]
  exact List.Perm.append_left _ List.perm_append_comm

theorem perm_spans_attach (b : TreeBuilder) (kind : NodeKind) (span : Span) :
    (b.attach kind span).spans.Perm (b.spans ++ [span]) := by
  apply perm_spans_of_readSpans
  · unfold attach
    split <;> simp [Arena.readSpans_add_read]
  · unfold attach
    split <;> rfl

theorem perm_spans_startTag (b : TreeBuilder) (name : String) (nameSpan : Span)
    (attributes : List RawAttribute) (selfClosing : Bool) (span : Span) :
    (b.startTag name nameSpan attributes selfClosing span).spans.Perm (b.spans ++ [span]) := by
  have hattach : ∀ (c : TreeBuilder) (kind : NodeKind), c.spans = b.spans →
      (c.attach kind span).spans.Perm (b.spans ++ [span]) := fun c kind hc =>
    hc ▸ perm_spans_attach c kind span
  simp only [startTag]
  split <;> split <;> split <;> exact hattach _ _ rfl

@[simp] theorem spans_reportUnclosed (b : TreeBuilder) (id : NodeId) :
    (b.reportUnclosed id).spans = b.spans := by
  unfold reportUnclosed
  split <;> rfl

theorem spans_foldl_reportUnclosed (b : TreeBuilder) (ids : List NodeId) :
    (ids.foldl reportUnclosed b).spans = b.spans := by
  induction ids generalizing b with
  | nil => rfl
  | cons id rest ih => rw [List.foldl_cons, ih, spans_reportUnclosed]

theorem perm_spans_endTag (b : TreeBuilder) (name : String) (span : Span) :
    (b.endTag name span).spans.Perm (b.spans ++ [span]) := by
  unfold endTag
  split
  · exact .of_eq (spans_skip _ _)
  · rename_i inner closing outer _
    rw [← spans_foldl_reportUnclosed b inner.reverse]
    apply perm_spans_of_readSpans
    · simp [Arena.readSpans_add_read]
    · rfl

/-- A token is kept as one node or one skipped place. -/
theorem perm_spans_token (keepComments : Bool) (b : TreeBuilder) (t : Token) :
    (b.token keepComments t).spans.Perm (b.spans ++ [t.span]) := by
  unfold token
  split
  · exact perm_spans_startTag ..
  · exact perm_spans_endTag ..
  · simp only
    split
    · exact perm_spans_attach (b.report .textOutsideRoot t.span) _ _
    · exact perm_spans_attach ..
  · split
    · exact perm_spans_attach ..
    · exact .of_eq (spans_skip _ _)
  · exact .of_eq (spans_skip _ _)

theorem perm_spans_foldl (keepComments : Bool) (b : TreeBuilder) (tokens : List Token) :
    (tokens.foldl (token keepComments) b).spans.Perm (b.spans ++ tokens.map (·.span)) := by
  induction tokens generalizing b with
  | nil => simp
  | cons t rest ih =>
      have hstep := (perm_spans_token keepComments b t).append_right (rest.map (·.span))
      rw [List.append_assoc] at hstep
      exact (ih _).trans hstep

theorem perm_spans_ofTokens (keepComments : Bool) (tokens : List Token) :
    (ofTokens keepComments tokens).spans.Perm (tokens.map (·.span)) := by
  rw [ofTokens, finish, spans_foldl_reportUnclosed]
  exact perm_spans_foldl keepComments {} tokens

end TreeBuilder

/-! ### Putting the source together again -/

theorem Tiles.le_offset {start stop : Nat} {spans : List Span} (h : Tiles start stop spans) :
    ∀ span ∈ spans, start ≤ span.offset := by
  induction spans generalizing start with
  | nil => simp
  | cons first later ih =>
      obtain ⟨rfl, hlength, hlater⟩ := h
      intro span hspan
      rcases List.mem_cons.1 hspan with rfl | hspan
      · exact Nat.le_refl _
      · exact Nat.le_trans (Nat.le_add_right _ _) (ih hlater span hspan)

theorem Tiles.pairwise_offset_lt {start stop : Nat} {spans : List Span}
    (h : Tiles start stop spans) : spans.Pairwise fun s t => s.offset < t.offset := by
  induction spans generalizing start with
  | nil => exact .nil
  | cons first later ih =>
      obtain ⟨rfl, hlength, hlater⟩ := h
      refine List.pairwise_cons.2 ⟨fun span hspan => ?_, ih hlater⟩
      exact Nat.lt_of_lt_of_le (Nat.lt_add_of_pos_right hlength) (hlater.le_offset span hspan)

/-- Sorting the spans of a tiling by their offsets puts them in the order of the tiling. -/
theorem Tiles.mergeSort_eq {start stop : Nat} {tiling spans : List Span}
    (h : Tiles start stop tiling) (hperm : spans.Perm tiling) :
    (spans.mergeSort fun s t => decide (s.offset ≤ t.offset)) = tiling := by
  have hsorted : (spans.mergeSort fun s t => decide (s.offset ≤ t.offset)).Perm tiling :=
    (List.mergeSort_perm _ _).trans hperm
  have hle : (spans.mergeSort fun s t => decide (s.offset ≤ t.offset)).Pairwise
      fun s t => decide (s.offset ≤ t.offset) := by
    apply List.pairwise_mergeSort
    · intro r s t hrs hst
      exact decide_eq_true (Nat.le_trans (of_decide_eq_true hrs) (of_decide_eq_true hst))
    · intro s t
      simpa using Nat.le_total s.offset t.offset
  -- No two spans of a tiling share an offset, so sorted by `≤` is sorted by `<`.
  have htiling := h.pairwise_offset_lt
  have hne := hsorted.symm.pairwise (htiling.imp fun {s t} h => Nat.ne_of_lt h) Ne.symm
  have hlt := (hle.and hne).imp fun {s t} h => Nat.lt_of_le_of_ne (of_decide_eq_true h.1) h.2
  exact List.Perm.eq_of_pairwise (fun s t _ _ h₁ h₂ => absurd h₁ (Nat.lt_asymm h₂))
    hlt htiling hsorted

namespace Document

theorem textOfSpans_of_cuts {source : String} {place : Position} {spans : List Span}
    (before text : List Char) (hsource : source.toList = before ++ text)
    (hplace : place.offset = byteLength before) (hcuts : Cuts place spans text) :
    textOfSpans source (byteLength before) spans = String.ofList text := by
  induction spans generalizing place before text with
  | nil =>
      rw [show text = [] from hcuts]
      rfl
  | cons span later ih =>
      obtain ⟨piece, rest, hpiece, rfl, rfl, hlater⟩ := hcuts
      have hpos := byteLength_pos hpiece
      have hsize : source.utf8ByteSize =
          byteLength before + (byteLength piece + byteLength rest) := by
        rw [← byteLength_toList, hsource, byteLength_append, byteLength_append]
      have hstart : max (place.spanOf piece).offset (byteLength before) = byteLength before := by
        simp [Position.spanOf, hplace]
      have hstop : min (place.spanOf piece).stop source.utf8ByteSize =
          byteLength before + byteLength piece := by
        simp only [Position.spanOf, Span.stop, hplace, hsize]
        omega
      have hnext := ih (before ++ piece) rest (by rw [hsource, List.append_assoc])
        (by rw [Position.offset_after, hplace, byteLength_append]) hlater
      simp only [textOfSpans, hstart, hstop]
      rw [if_neg (by omega), hsource, sliceBytes?_append, ← byteLength_append]
      simp only [hnext, String.ofList_append]

theorem gaps_of_tiles {start stop : Nat} {spans : List Span} (h : Tiles start stop spans) :
    gaps stop start spans = [] := by
  induction spans generalizing start with
  | nil => simp [gaps, show start = stop from h]
  | cons span later ih =>
      obtain ⟨rfl, hlength, hlater⟩ := h
      have hmax : max span.offset span.stop = span.stop :=
        Nat.max_eq_right (Nat.le_add_right _ _)
      simp only [gaps, hmax, ih hlater]
      simp

/-- A document in which nodes were copied, one copy after another. -/
def copySubtrees (doc : Document) (copies : List (NodeId × List Attribute)) : Document :=
  { doc with arena := doc.arena.copySubtrees copies }

/-- The places a document knows are those of its tokens, in source order. -/
theorem sourceSpans_copySubtrees (source : String) (keepComments : Bool)
    (copies : List (NodeId × List Attribute)) :
    ((ofSource source keepComments).copySubtrees copies).sourceSpans =
      (TokenStream.ofSource source).spans := by
  have hperm := TreeBuilder.perm_spans_ofTokens keepComments (TokenStream.ofSource source).tokens
  rw [TreeBuilder.spans] at hperm
  rw [← Arena.readSpans_copySubtrees _ copies] at hperm
  exact (TokenStream.tiles_ofSource source).mergeSort_eq hperm

/-- Nothing of a text is lost: its tokens tile it, and the document they form gives it back byte
for byte, however often nodes of the document are copied. -/
theorem reassemble_copySubtrees (source : String) (keepComments : Bool)
    (copies : List (NodeId × List Attribute)) :
    Tiles 0 source.utf8ByteSize (TokenStream.ofSource source).spans ∧
      reassemble source ((ofSource source keepComments).copySubtrees copies) = source ∧
      uncovered source ((ofSource source keepComments).copySubtrees copies) = [] := by
  have htiles := TokenStream.tiles_ofSource source
  have hspans := sourceSpans_copySubtrees source keepComments copies
  refine ⟨htiles, ?_, ?_⟩
  · rw [reassemble, hspans]
    have htext := textOfSpans_of_cuts [] source.toList rfl rfl (TokenStream.cuts_ofSource source)
    rwa [String.ofList_toList] at htext
  · rw [uncovered, hspans]
    exact gaps_of_tiles htiles

end Document

end PatternMarkup
