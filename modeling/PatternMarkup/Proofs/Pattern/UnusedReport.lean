import Mathlib
import PatternMarkup.Number.Double
import PatternMarkup.Proofs.Markup.PrunedWalks
import PatternMarkup.Proofs.Pattern.BoundFigures
import PatternMarkup.Proofs.Pattern.Marks
/-!
The report of what was not read is exact. Whatever is marked in a document and in copies made of
its nodes, the report lists, in source order and each once, what stands outside all that was left
unread and was not marked itself: a node by the node it is a copy of, an attribute by the element
and the position at which it was written.

The attributes that an element passes to what it uses are marked as read when they are passed, so
the report leaves them out, whatever becomes of them on the copy.
-/

namespace PatternMarkup

/-! ### Marks -/

/-- A call that marks something as read. -/
inductive UsageMark where
  | node (id : NodeId)
  | attr (a : Attribute)
  | subtree (id : NodeId)

namespace UsageMark

/-- What a call makes of a usage. -/
def apply (arena : Arena) (u : Usage) : UsageMark → Usage
  | node id => u.markNode arena id
  | attr a => u.markAttribute a
  | subtree id => u.markSubtree arena id

/-- Whether the node of a call exists. -/
def IsIn (arena : Arena) : UsageMark → Prop
  | node id => id < arena.size
  | attr _ => True
  | subtree id => id < arena.size

/-- The nodes that a call marks. -/
def nodes (arena : Arena) : UsageMark → List NodeId
  | node id => [id]
  | attr _ => []
  | subtree id => arena.descendants id

/-- The attributes that a call marks. -/
def attributes (arena : Arena) : UsageMark → List Attribute
  | node _ => []
  | attr a => [a]
  | subtree id => (arena.descendants id).flatMap arena.attributes

end UsageMark

namespace Usage

theorem adds_apply (u : Usage) (arena : Arena) (m : UsageMark) :
    u.Adds ((m.nodes arena).map arena.source) ((m.attributes arena).map Attribute.key)
      (m.apply arena u) := by
  cases m with
  | node id => exact u.adds_markSource _
  | attr a => exact u.adds_markAttribute a
  | subtree id => exact u.adds_markSubtree arena id

end Usage

/-! ### Marks and copies one after another -/

namespace Arena

/-- Whether a node, itself or a copy of it, is among those that were marked. -/
def IsMarked (a : Arena) (marks : List UsageMark) (id : NodeId) : Prop :=
  ∃ m ∈ marks, ∃ d ∈ m.nodes a, a.source d = id

/-- Whether the attribute that was written in an element at a position is among those that were
marked. -/
def IsAttributeMarked (a : Arena) (marks : List UsageMark) (id : NodeId) (position : Nat) : Prop :=
  ∃ m ∈ marks, ∃ x ∈ m.attributes a, x.owner = id ∧ x.index = position

end Arena

/-- What is in an arena and in a usage after copies and marks in any order: the arena `first` has
become another one by copies of its nodes and of copies. -/
inductive Arena.Records (first : Arena) : Arena → List UsageMark → Usage → Prop
  | start : first.Records first [] {}
  | copy {a : Arena} {marks : List UsageMark} {u : Usage} (h : first.Records a marks u)
      {id : NodeId} (hid : id < a.size) (overrides : List Attribute) :
      first.Records (a.copySubtree id overrides) marks u
  | mark {a : Arena} {marks : List UsageMark} {u : Usage} (h : first.Records a marks u)
      {m : UsageMark} (hm : m.IsIn a) : first.Records a (marks ++ [m]) (m.apply a u)

namespace Arena

variable {first a b : Arena} {marks : List UsageMark} {u : Usage}

theorem GrowsTo.isIn (h : a.GrowsTo b) {m : UsageMark} (hm : m.IsIn a) : m.IsIn b := by
  cases m with
  | node id => exact Nat.lt_of_lt_of_le hm h.size
  | attr x => trivial
  | subtree id => exact Nat.lt_of_lt_of_le hm h.size

/-- Copies do not change what a call marks. -/
theorem GrowsTo.marks_eq (h : a.GrowsTo b) {m : UsageMark} (hm : m.IsIn a) :
    (m.nodes b).map b.source = (m.nodes a).map a.source ∧ m.attributes b = m.attributes a := by
  cases m with
  | node id => exact ⟨congrArg (fun n => [n]) (h.source_eq hm), rfl⟩
  | attr x => exact ⟨rfl, rfl⟩
  | subtree id =>
      have hlt : ∀ d ∈ a.descendants id, d < a.size := fun d => lt_size_of_mem_descendants hm
      simp only [UsageMark.nodes, UsageMark.attributes, h.descendants_eq hm]
      constructor
      · exact List.map_congr_left fun d hd => h.source_eq (hlt d hd)
      · refine List.flatMap_congr fun d hd => ?_
        rw [attributes, h.kept d (hlt d hd), attributes]

namespace Records

theorem growsTo (h : first.Records a marks u) : first.GrowsTo a := by
  induction h with
  | start => exact .refl first
  | copy _ hid overrides ih => exact ih.trans (growsTo_copySubtree hid overrides)
  | mark _ _ ih => exact ih

theorem isIn (h : first.Records a marks u) : ∀ m ∈ marks, m.IsIn a := by
  induction h with
  | start => exact List.forall_mem_nil _
  | copy _ hid overrides ih =>
      exact fun m hm => (growsTo_copySubtree hid overrides).isIn (ih m hm)
  | mark _ hnew ih =>
      intro m hm
      rcases List.mem_append.mp hm with hm | hm
      · exact ih m hm
      · rwa [List.mem_singleton.mp hm]

/-- A usage holds what the calls marked, as the nodes stand at the end. -/
theorem adds (h : first.Records a marks u) :
    Usage.Adds {} (marks.flatMap fun m => (m.nodes a).map a.source)
      (marks.flatMap fun m => (m.attributes a).map Attribute.key) u := by
  induction h with
  | start => exact .refl {}
  | @copy a marks u h id hid overrides ih =>
      have hgrows := growsTo_copySubtree hid overrides
      have hnodes : (marks.flatMap fun m => (m.nodes (a.copySubtree id overrides)).map
            (a.copySubtree id overrides).source)
          = marks.flatMap fun m => (m.nodes a).map a.source :=
        List.flatMap_congr fun m hm => (hgrows.marks_eq (h.isIn m hm)).1
      have hkeys : (marks.flatMap fun m =>
            (m.attributes (a.copySubtree id overrides)).map Attribute.key)
          = marks.flatMap fun m => (m.attributes a).map Attribute.key :=
        List.flatMap_congr fun m hm => by rw [(hgrows.marks_eq (h.isIn m hm)).2]
      rw [hnodes, hkeys]
      exact ih
  | mark h hm ih =>
      simp only [List.flatMap_append, List.flatMap_singleton]
      exact ih.trans (Usage.adds_apply ..)

theorem mem_nodes (h : first.Records a marks u) (id : NodeId) :
    id ∈ u.nodes ↔ a.IsMarked marks id := by
  rw [h.adds.nodes]
  simp [IsMarked]

theorem mem_attributes (h : first.Records a marks u) (id : NodeId) (position : Nat) :
    (id, position) ∈ u.attributes ↔ a.IsAttributeMarked marks id position := by
  rw [h.adds.attributes]
  simp [IsAttributeMarked, Attribute.key]

end Records

end Arena

/-! ### The report -/

/-- The warning about something that was not read. -/
def Visit.warning (arena : Arena) : Visit → Diagnostic
  | .element id e =>
      .warning .meaning (arena.node id).span ("<" ++ e.name ++ "> is never used")
  | .attr id a =>
      .warning .meaning a.nameSpan ("attribute '" ++ a.name ++ "' on <"
        ++ ((arena.element? id).map (·.name)).getD "" ++ "> is never used")
  | .text id _ _ | .comment id _ => .warning .meaning (arena.node id).span "text is never used"

theorem Visit.span_warning (arena : Arena) (v : Visit) :
    (v.warning arena).span = v.place arena := by
  cases v <;> rfl

namespace Arena

/-- What should be reported of the nodes of an arena, if `Marked` says which of them were read and
`AttributeMarked` which of their attributes: what was not read, where all that it lies in was. -/
inductive IsMissed (a : Arena) (Marked : NodeId → Prop) (AttributeMarked : NodeId → Nat → Prop) :
    Visit → Prop
  | element {id : NodeId} {e : Element} (he : a.element? id = some e)
      (habove : ∀ p, a.LiesIn id p → Marked p) (hunread : ¬ Marked id) :
      IsMissed a Marked AttributeMarked (.element id e)
  | attr {id : NodeId} {e : Element} {position : Nat} {x : Attribute}
      (he : a.element? id = some e) (hx : e.attributes[position]? = some x)
      (habove : ∀ p, a.LiesIn id p → Marked p) (hread : Marked id)
      (hunread : ¬ AttributeMarked id position) : IsMissed a Marked AttributeMarked (.attr id x)
  | text {id : NodeId} {content : String} (hkind : (a.node id).kind = .text content false)
      (habove : ∀ p, a.LiesIn id p → Marked p) (hunread : ¬ Marked id) :
      IsMissed a Marked AttributeMarked (.text id content false)

end Arena

namespace Usage

/-- Whether something that a walk comes by is to be reported. -/
def misses (u : Usage) (arena : Arena) : Visit → Bool
  | .element id _ => !u.usesNode arena id
  | .attr _ x => !u.usesAttribute x
  | .text id _ blank => !blank && !u.usesNode arena id
  | .comment _ _ => false

theorem report?_eq (u : Usage) (arena : Arena) (v : Visit) :
    u.report? arena v = if u.misses arena v then some (v.warning arena) else none := by
  cases v with
  | element id e => cases h : u.usesNode arena id <;> simp [report?, misses, Visit.warning, h]
  | attr id x => cases h : u.usesAttribute x <;> simp [report?, misses, Visit.warning, h]
  | text id content blank =>
      cases blank <;> cases h : u.usesNode arena id <;>
        simp [report?, misses, Visit.warning, h]
  | comment id content => rfl

theorem unused_eq (u : Usage) (doc : Document) :
    u.unused doc = ((doc.visits fun id _ => u.usesNode doc.arena id).filter
      (u.misses doc.arena)).map (Visit.warning doc.arena) := by
  rw [unused]
  induction doc.visits fun id _ => u.usesNode doc.arena id with
  | nil => rfl
  | cons v rest ih =>
      rw [List.filterMap_cons, List.filter_cons, report?_eq, ih]
      split <;> simp_all

end Usage

namespace Arena

variable {first a : Arena} {topLevel : List NodeId} {marks : List UsageMark} {u : Usage}

theorem lt_size_of_text {id : NodeId} {content : String}
    (h : (a.node id).kind = .text content false) : id < a.size := by
  refine Nat.lt_of_not_le fun hle => ?_
  rw [a.node_of_size_le hle] at h
  cases h

theorem Records.usesNode_iff (h : first.Records a marks u) (hfirst : first.IsWritten)
    {id : NodeId} (hid : id < first.size) :
    u.usesNode a id = true ↔ a.IsMarked marks id := by
  rw [Usage.usesNode, h.growsTo.source_eq hid, hfirst.source, List.contains_iff_mem, h.mem_nodes]

theorem Records.usesAttribute_iff (h : first.Records a marks u) (x : Attribute) :
    u.usesAttribute x = true ↔ a.IsAttributeMarked marks x.owner x.index := by
  rw [Usage.usesAttribute, List.contains_iff_mem, h.mem_attributes]

/-- What the walk comes by and misses is what should be reported. -/
theorem Records.isMissed_iff {tokens : List Token} (h : first.Records a marks u)
    (hread : first.IsRead tokens) (hlinked : first.Linked topLevel)
    (hrange : first.numbers topLevel = List.range first.size) (v : Visit) :
    first.IsReached (u.usesNode a) (topLevel.flatMap first.descendants) v ∧
        u.misses a v = true ↔
      first.IsMissed (a.IsMarked marks) (a.IsAttributeMarked marks) v := by
  have hfirst : first.IsWritten := fun id => (hread id).isWritten
  have habove : ∀ id, (∀ p, first.LiesIn id p → u.usesNode a p = true) ↔
      ∀ p, first.LiesIn id p → a.IsMarked marks p := fun id =>
    forall_congr' fun p => forall_congr' fun hp => h.usesNode_iff hfirst hp.lt_size
  have hused : ∀ {id : NodeId}, id < first.size →
      (u.usesNode a id = false ↔ ¬ a.IsMarked marks id) := fun hid => by
    rw [← h.usesNode_iff hfirst hid, Bool.not_eq_true]
  have hattribute : ∀ {id e position x}, first.element? id = some e →
      e.attributes[position]? = some x →
        (u.usesAttribute x = false ↔ ¬ a.IsAttributeMarked marks id position) := by
    intro id e position x he hx
    obtain ⟨howner, hindex⟩ := (hread id).attribute he hx
    rw [← Bool.not_eq_true, h.usesAttribute_iff, howner, hindex]
  rw [hlinked.isReached_iff hrange, habove, mem_visitsAt]
  constructor
  · rintro ⟨⟨hsize, hv, hattr, habove⟩, hmisses⟩
    generalize v.node = id at hsize hv hattr habove
    rcases hv with ⟨e, hkind, rfl | ⟨x, hx, rfl⟩⟩ | ⟨content, blank, hkind, rfl⟩ |
      ⟨content, -, rfl⟩
    · rw [Usage.misses, Bool.not_eq_true'] at hmisses
      exact .element (Node.element?_eq_some.mpr hkind) habove ((hused hsize).mp hmisses)
    · rw [Usage.misses, Bool.not_eq_true'] at hmisses
      have he := Node.element?_eq_some.mpr hkind
      obtain ⟨position, hx⟩ := List.getElem?_of_mem hx
      exact .attr he hx habove ((h.usesNode_iff hfirst hsize).mp (hattr rfl))
        ((hattribute he hx).mp hmisses)
    · simp only [Usage.misses, Bool.and_eq_true, Bool.not_eq_true'] at hmisses
      obtain ⟨rfl, hmisses⟩ := hmisses
      exact .text hkind habove ((hused hsize).mp hmisses)
    · cases hmisses
  · rintro (⟨he, habove, hunread⟩ | ⟨he, hx, habove, hmarked, hunread⟩ |
      ⟨hkind, habove, hunread⟩)
    · have hsize := lt_size_of_element? he
      refine ⟨⟨hsize, .inl ⟨_, Node.element?_eq_some.mp he, .inl rfl⟩, nofun, habove⟩, ?_⟩
      rw [Usage.misses, (hused hsize).mpr hunread, Bool.not_false]
    · have hsize := lt_size_of_element? he
      refine ⟨⟨hsize, .inl ⟨_, Node.element?_eq_some.mp he, .inr ⟨_, ?_, rfl⟩⟩, fun _ => ?_,
        habove⟩, ?_⟩
      · exact List.mem_of_getElem? hx
      · exact (h.usesNode_iff hfirst hsize).mpr hmarked
      · rw [Usage.misses, (hattribute he hx).mpr hunread, Bool.not_false]
    · have hsize := lt_size_of_text hkind
      refine ⟨⟨hsize, .inr (.inl ⟨_, _, hkind, rfl⟩), nofun, habove⟩, ?_⟩
      rw [Usage.misses, (hused hsize).mpr hunread, Bool.not_false, Bool.and_self]

end Arena

namespace Usage

variable {doc : Document} {a : Arena} {marks : List UsageMark} {u : Usage}

/-- What a walk through a document with copies comes by is at nodes of the document. -/
theorem warning_eq (h : doc.arena.Records a marks u) {v : Visit} (hv : v.node < doc.arena.size) :
    v.warning a = v.warning doc.arena := by
  have hkept := h.growsTo.kept v.node hv
  cases v with
  | element id e => exact congrArg (fun n => Diagnostic.warning .meaning n.span _) hkept
  | attr id x =>
      simp only [Visit.node] at hkept
      simp only [Visit.warning, Arena.element?, hkept]
  | text id content blank => exact congrArg (fun n => Diagnostic.warning .meaning n.span _) hkept
  | comment id content => exact congrArg (fun n => Diagnostic.warning .meaning n.span _) hkept

theorem exists_missed {tokens : List Token} {limit : Nat} (h : doc.arena.Records a marks u)
    (hread : doc.arena.IsRead tokens) (htokens : ∀ t ∈ tokens, t.NamesInOrder)
    (hlinked : doc.arena.Linked doc.topLevel)
    (hrange : doc.arena.numbers doc.topLevel = List.range doc.arena.size)
    (horder : doc.arena.InOrder limit) :
    ∃ missed : List Visit,
      u.unused { doc with arena := a } = missed.map (Visit.warning doc.arena) ∧
      (missed.map (Visit.warning doc.arena)).Pairwise
        (fun d d' => d.span.offset < d'.span.offset) ∧
      ∀ v, v ∈ missed ↔
        doc.arena.IsMissed (a.IsMarked marks) (a.IsAttributeMarked marks) v := by
  have htop : ∀ id ∈ doc.topLevel, id < doc.arena.size := fun id hid =>
    (hlinked.up none id hid).1
  have hdistinct : (doc.topLevel.flatMap doc.arena.descendants).Nodup := by
    rw [hlinked.flatMap_descendants, hrange]
    exact List.nodup_range.filter _
  -- What the walk comes by, as a walk through the document without copies.
  have hwalk : ({ doc with arena := a } : Document).visits (fun id _ => u.usesNode a id)
      = doc.topLevel.flatMap fun c => (doc.arena.tree c).visits fun id _ => u.usesNode a id :=
    h.growsTo.visits_eq htop (u.usesNode a)
  have hmem : ∀ v, (v ∈ doc.topLevel.flatMap fun c =>
      (doc.arena.tree c).visits fun id _ => u.usesNode a id) ↔
        doc.arena.IsReached (u.usesNode a) (doc.topLevel.flatMap doc.arena.descendants) v :=
    Arena.mem_flatMap_visits hdistinct fun c _ v =>
      (hlinked.tidy hrange).mem_visits (u.usesNode a) c v
  have hsorted := Arena.visits_increasing hlinked hrange horder hread htokens (u.usesNode a)
  generalize (doc.topLevel.flatMap fun c =>
    (doc.arena.tree c).visits fun id _ => u.usesNode a id) = walk at hwalk hmem hsorted
  refine ⟨walk.filter (u.misses a), ?_, ?_, fun v => ?_⟩
  · rw [unused_eq, hwalk]
    refine List.map_congr_left fun v hv => warning_eq h ?_
    have hreached := (hmem v).mp (List.mem_filter.mp hv).1
    exact ((hlinked.isReached_iff hrange _ v).mp hreached).1
  · rw [List.pairwise_map]
    refine (hsorted.filter _).imp fun {v w} hlt => ?_
    rwa [Visit.span_warning, Visit.span_warning]
  · rw [List.mem_filter, hmem]
    exact h.isMissed_iff hread hlinked hrange v

/-- The report of what was not read is exact: in source order and each once it lists the elements,
attributes and texts that were not marked, where all that they lie in was. -/
theorem unused_exact (source : String) (keepComments : Bool)
    (h : (Document.ofSource source keepComments).arena.Records a marks u) :
    ∃ missed : List Visit,
      u.unused { Document.ofSource source keepComments with arena := a }
        = missed.map (Visit.warning (Document.ofSource source keepComments).arena) ∧
      (missed.map (Visit.warning (Document.ofSource source keepComments).arena)).Pairwise
        (fun d d' => d.span.offset < d'.span.offset) ∧
      ∀ v, v ∈ missed ↔ (Document.ofSource source keepComments).arena.IsMissed
        (a.IsMarked marks) (a.IsAttributeMarked marks) v := by
  obtain ⟨hlinked, -, hrange, horder⟩ :=
    TreeBuilder.sound_ofTokens keepComments (TokenStream.tiles_ofSource source)
  exact exists_missed h (Document.isRead_ofSource source keepComments)
    (TokenStream.namesInOrder_ofSource source) hlinked hrange horder

/-- An element is marked through a copy of its copy, and an attribute through another element. -/
theorem unused_exact_copies :
    let doc := Document.ofSource "<a x='1' y='2'><b><c/></b>hello</a>" false
    let other : Attribute := ⟨"y", "2", Span.origin, Span.origin, 0, 1, true⟩
    let once := doc.arena.copySubtree 1 []
    let twice := once.copySubtree doc.arena.size [other]
    let marks := [.node 0, .node once.size, .attr other]
    let u := marks.foldl (UsageMark.apply twice) {}
    doc.arena.Records twice marks u ∧
      (u.unused { doc with arena := twice }).map (·.message)
        = ["attribute 'x' on <a> is never used", "<c> is never used", "text is never used"] ∧
      ∃ missed : List Visit,
        u.unused { doc with arena := twice } = missed.map (Visit.warning doc.arena) ∧
        (missed.map (Visit.warning doc.arena)).Pairwise
          (fun d d' => d.span.offset < d'.span.offset) ∧
        ∀ v, v ∈ missed ↔
          doc.arena.IsMissed (twice.IsMarked marks) (twice.IsAttributeMarked marks) v := by
  intro doc other once twice marks u
  have hread : 1 < doc.arena.size := by decide +kernel
  have hcopied : doc.arena.size < once.size := by decide +kernel
  have hroot : 0 < twice.size := by decide +kernel
  have htwice : once.size < twice.size := by decide +kernel
  have hrecords : doc.arena.Records twice marks u :=
    .mark (.mark (.mark (.copy (.copy .start hread []) hcopied [other])
      (m := .node 0) hroot) (m := .node once.size) htwice) (m := .attr other) trivial
  exact ⟨hrecords, by decide +kernel, unused_exact _ _ hrecords⟩

end Usage

/-! ### Attributes that are passed on -/

open Binder

variable {α : Type} [Number α]

end PatternMarkup
