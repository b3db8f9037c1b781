import PatternMarkup.Proofs.Markup.FaultPlaces
import PatternMarkup.Proofs.Markup.TreeInvariant
/-!
The faults of a tree under construction. Each is an error at a token or at the name in a start
tag; and the faults at the name of an element tell whether it stands beside the root and whether
it was left open.
-/

namespace PatternMarkup

/-- The element has no end tag and does not close itself. -/
def Element.IsUnclosed (e : Element) : Prop := e.endTag = none ∧ e.selfClosing = false

instance (e : Element) : Decidable e.IsUnclosed := inferInstanceAs (Decidable (_ ∧ _))

/-- Spans that lie inside two others, one of which ends before the other one starts, differ. -/
theorem Span.Inside.ne_of_stop_le {m n s t : Span} (hm : m.Inside s) (hn : n.Inside t)
    (h : s.stop ≤ t.offset) : m ≠ n := by
  rintro rfl
  have hstop := hm.stop_le
  have hoffset := hn.offset_lt
  unfold Span.stop at hstop h
  omega

namespace Node

variable {n m : Node} {e : Element}

theorem nameSpan_of_withoutChildren (h : n.withoutChildren = m.withoutChildren)
    (hn : n.element? = some e) :
    ∃ e', m.element? = some e' ∧ e'.name = e.name ∧ e'.nameSpan = e.nameSpan ∧
      (e'.IsUnclosed ↔ e.IsUnclosed) := by
  obtain ⟨kind, span, parent, origin⟩ := n
  obtain ⟨kind', span', parent', origin'⟩ := m
  cases kind <;> cases kind' <;>
    simp_all [withoutChildren, mapElement, element?, Element.IsUnclosed]

end Node

namespace TreeBuilder

/-- The faults found at a span, in the order in which they were found. -/
def faultsAt (b : TreeBuilder) (span : Span) : List MarkupFault :=
  (b.faults.toList.filter (·.span == span)).map (·.fault)

/-- The node stands outside all elements, but is not the root. -/
def IsFurther (b : TreeBuilder) (id : NodeId) : Prop :=
  id ∈ b.topLevel.toList ∧ b.root ≠ some id

instance (b : TreeBuilder) (id : NodeId) : Decidable (b.IsFurther id) :=
  inferInstanceAs (Decidable (_ ∧ _))

/-- What is wrong with an element as a whole: it is a further one outside all others, and nothing
closes it any more. -/
def faultsOf (b : TreeBuilder) (id : NodeId) (e : Element) : List MarkupFault :=
  (if b.IsFurther id then [.multipleRoots] else []) ++
    if e.IsUnclosed ∧ id ∉ b.unclosed then [.unclosedElement e.name] else []

/-- The faults of a tree under construction that was read from some of the tokens, none of them
past the byte `limit`. -/
structure Reported (b : TreeBuilder) (tokens : List Token) (limit : Nat) : Prop where
  names : ∀ id e, b.arena.element? id = some e →
    (∃ t ∈ tokens, t.kind.nameSpan? = some e.nameSpan) ∧
      e.nameSpan.Inside (b.arena.node id).span
  faults : ∀ f ∈ b.faults, f.fault.severity = .error ∧ f.span.stop ≤ limit ∧
    ∃ t ∈ tokens, f.span = t.span ∨ t.kind.nameSpan? = some f.span
  root : ∀ r, b.root = some r → r < b.arena.size
  atNames : ∀ id e, b.arena.element? id = some e → b.faultsAt e.nameSpan = b.faultsOf id e
  unclosed : ∀ f ∈ b.faults, ∀ name, f.fault = .unclosedElement name →
    ∃ id e, b.arena.element? id = some e ∧ f.span = e.nameSpan

variable {b : TreeBuilder} {tokens : List Token} {limit : Nat}

theorem faultsOf_congr {c : TreeBuilder} {id : NodeId} {e e' : Element}
    (hfurther : c.IsFurther id ↔ b.IsFurther id)
    (hunclosed : e'.IsUnclosed ∧ id ∉ c.unclosed ↔ e.IsUnclosed ∧ id ∉ b.unclosed)
    (hname : e'.name = e.name) : c.faultsOf id e' = b.faultsOf id e := by
  rw [faultsOf, faultsOf, hname, if_congr hfurther rfl rfl, if_congr hunclosed rfl rfl]

/-! ### The faults at a span -/

theorem faultsAt_report_self (b : TreeBuilder) (fault : MarkupFault) (span : Span) :
    (b.report fault span).faultsAt span = b.faultsAt span ++ [fault] := by
  simp [faultsAt, report]

theorem faultsAt_report_of_ne (b : TreeBuilder) (fault : MarkupFault) {span other : Span}
    (h : other ≠ span) : (b.report fault other).faultsAt span = b.faultsAt span := by
  simp [faultsAt, report, h]

theorem faultsAt_eq_nil {span : Span} (h : ∀ f ∈ b.faults, f.span ≠ span) :
    b.faultsAt span = [] := by
  rw [faultsAt, List.map_eq_nil_iff, List.filter_eq_nil_iff]
  intro f hf
  simpa using h f (Array.mem_toList_iff.mp hf)

theorem faultsAt_congr {c : TreeBuilder} (h : c.faults = b.faults) (span : Span) :
    c.faultsAt span = b.faultsAt span := by
  rw [faultsAt, faultsAt, h]

/-- A span that starts at `limit` or later and is not empty has no fault yet. -/
theorem Reported.faultsAt_eq_nil (h : b.Reported tokens limit) {span : Span}
    (hlimit : limit ≤ span.offset) (hpos : 0 < span.length) : b.faultsAt span = [] := by
  refine TreeBuilder.faultsAt_eq_nil fun f hf hspan => ?_
  have hstop := (h.faults f hf).2.1
  rw [hspan, Span.stop] at hstop
  omega

theorem Reported.mono (h : b.Reported tokens limit) {limit' : Nat} (hle : limit ≤ limit') :
    b.Reported tokens limit' := by
  refine ⟨h.names, fun f hf => ?_, h.root, h.atNames, h.unclosed⟩
  obtain ⟨herror, hstop, hplace⟩ := h.faults f hf
  exact ⟨herror, Nat.le_trans hstop hle, hplace⟩

theorem Reported.skip (h : b.Reported tokens limit) (span : Span) :
    (b.skip span).Reported tokens limit :=
  ⟨h.names, h.faults, h.root, h.atNames, h.unclosed⟩

/-- No two elements have their names at the same place. -/
theorem Reported.eq_of_nameSpan (h : b.Reported tokens limit) (hb : b.Sound limit) {i j : NodeId}
    {e e' : Element} (hi : b.arena.element? i = some e) (hj : b.arena.element? j = some e')
    (hname : e.nameSpan = e'.nameSpan) : i = j := by
  have hiInside := (h.names i e hi).2
  have hjInside := (h.names j e' hj).2
  rcases Nat.lt_trichotomy i j with hij | rfl | hji
  · have hle := hb.inOrder.stop_le_offset i j hij (Arena.lt_size_of_element? hj)
    exact absurd hname (hiInside.ne_of_stop_le hjInside hle)
  · rfl
  · have hle := hb.inOrder.stop_le_offset j i hji (Arena.lt_size_of_element? hi)
    exact absurd hname.symm (hjInside.ne_of_stop_le hiInside hle)

/-! ### A fault of a token -/

/-- An error that stands where nothing was read yet says nothing about the elements. -/
theorem Reported.report (h : b.Reported tokens limit) (hb : b.Sound limit) (fault : MarkupFault)
    {span : Span} {limit' : Nat} (herror : fault.severity = .error)
    (hfault : ∀ name, fault ≠ .unclosedElement name) (hlimit : limit ≤ span.offset)
    (hstop : span.stop ≤ limit')
    (hplace : ∃ t ∈ tokens, span = t.span ∨ t.kind.nameSpan? = some span) :
    (b.report fault span).Reported tokens limit' := by
  have hle : limit ≤ limit' := Nat.le_trans hlimit (Nat.le_trans (Nat.le_add_right _ _) hstop)
  refine ⟨h.names, fun f hf => ?_, h.root, fun id e he => ?_, fun f hf name hname => ?_⟩
  · rcases Array.mem_push.mp hf with hf | rfl
    · exact (h.mono hle).faults f hf
    · exact ⟨herror, hstop, hplace⟩
  · have hinside := (h.names id e he).2
    have hnode := hb.inOrder.stop_le id (Arena.lt_size_of_element? he)
    have hne : span ≠ e.nameSpan := by
      rintro rfl
      have hname := hinside.stop_le
      have hpos := hinside.length_pos
      unfold Span.stop at hname hnode
      omega
    rw [faultsAt_report_of_ne b fault hne]
    exact h.atNames id e he
  · rcases Array.mem_push.mp hf with hf | rfl
    · exact h.unclosed f hf name hname
    · exact absurd hname (hfault name)

/-! ### A node more -/

/-- The element `e'` of a tree has become `e`: what counts for its faults is the same. -/
structure Keeps (b : TreeBuilder) (e' : Element) (c : TreeBuilder) (id : NodeId) (e : Element) :
    Prop where
  element : b.arena.element? id = some e'
  nameSpan : e'.nameSpan = e.nameSpan
  span : (c.arena.node id).span = (b.arena.node id).span
  faultsOf : c.faultsOf id e = b.faultsOf id e'

/-- A tree keeps its faults in a step that keeps its elements, if those at the name of a new
element are the ones of that element. -/
theorem Reported.of_keeps (h : b.Reported tokens limit) {c : TreeBuilder}
    (hfaults : c.faults = b.faults) (hroot : ∀ r, c.root = some r → r < c.arena.size)
    (hkept : ∀ id e, b.arena.element? id = some e →
      ∃ e', c.arena.element? id = some e' ∧ e'.nameSpan = e.nameSpan)
    (hcases : ∀ id e, c.arena.element? id = some e → (∃ e', b.Keeps e' c id e) ∨
      (∃ t ∈ tokens, t.kind.nameSpan? = some e.nameSpan) ∧
        e.nameSpan.Inside (c.arena.node id).span ∧ b.faultsAt e.nameSpan = c.faultsOf id e) :
    c.Reported tokens limit := by
  refine ⟨fun id e he => ?_, by rw [hfaults]; exact h.faults, hroot, fun id e he => ?_,
    fun f hf name hname => ?_⟩
  · rcases hcases id e he with ⟨e', hold⟩ | ⟨hplace, hinside, -⟩
    · rw [← hold.nameSpan, hold.span]
      exact h.names id e' hold.element
    · exact ⟨hplace, hinside⟩
  · rw [faultsAt_congr hfaults]
    rcases hcases id e he with ⟨e', hold⟩ | ⟨-, -, hnew⟩
    · rw [← hold.nameSpan, hold.faultsOf]
      exact h.atNames id e' hold.element
    · exact hnew
  · rw [hfaults] at hf
    obtain ⟨id, e, he, hspan⟩ := h.unclosed f hf name hname
    obtain ⟨e', he', hnameSpan⟩ := hkept id e he
    exact ⟨id, e', he', hspan.trans hnameSpan.symm⟩

theorem Reported.of_attaches (h : b.Reported tokens limit) {c : TreeBuilder} {n : Node}
    (hattaches : b.arena.Attaches b.topLevel.toList n c.arena c.topLevel.toList)
    (hfaults : c.faults = b.faults) (hroot : ∀ r, c.root = some r → r < c.arena.size)
    (hkept : ∀ id < b.arena.size, (c.root = some id ↔ b.root = some id) ∧
      (id ∈ c.unclosed ↔ id ∈ b.unclosed))
    (hnew : ∀ e, n.element? = some e → (∃ t ∈ tokens, t.kind.nameSpan? = some e.nameSpan) ∧
      e.nameSpan.Inside n.span ∧ b.faultsAt e.nameSpan = c.faultsOf b.arena.size e) :
    c.Reported tokens limit := by
  refine h.of_keeps hfaults hroot (fun id e he => ?_) fun id e he => ?_
  · have hsame := hattaches.kept id (Arena.lt_size_of_element? he)
    obtain ⟨e', he', -, hnameSpan, -⟩ := Node.nameSpan_of_withoutChildren hsame.symm he
    exact ⟨e', he', hnameSpan⟩
  · have hid := Arena.lt_size_of_element? he
    rw [hattaches.size] at hid
    rcases Nat.lt_succ_iff_lt_or_eq.mp hid with hid | rfl
    · have hsame := hattaches.kept id hid
      obtain ⟨e', he', hname, hnameSpan, hunclosed⟩ := Node.nameSpan_of_withoutChildren hsame he
      refine .inl ⟨e', he', hnameSpan, Node.span_of_withoutChildren hsame, ?_⟩
      have htop : id ∈ c.topLevel.toList ↔ id ∈ b.topLevel.toList := by
        by_cases hparent : none = n.parent
        · have hlevel := hattaches.level_parent
          rw [← hparent] at hlevel
          rw [show c.topLevel.toList = b.topLevel.toList ++ [b.arena.size] from hlevel]
          simp [Nat.ne_of_lt hid]
        · have hlevel := hattaches.level_of_ne none hparent
          rw [show c.topLevel.toList = b.topLevel.toList from hlevel]
      refine faultsOf_congr (and_congr htop (not_congr (hkept id hid).1)) ?_ hname.symm
      exact and_congr hunclosed.symm (not_congr (hkept id hid).2)
    · rw [Arena.element?, hattaches.node_size] at he
      rw [hattaches.node_size]
      exact .inr (hnew e he)

theorem kept_attach (b : TreeBuilder) (kind : NodeKind) (span : Span) :
    (b.attach kind span).root = b.root ∧ (b.attach kind span).faults = b.faults := by
  unfold attach
  split <;> exact ⟨rfl, rfl⟩

/-- A node that is no element has no name for a fault to be at. -/
theorem Reported.attach {limit' : Nat} (h : b.Reported tokens limit') (hb : b.Sound limit)
    {kind : NodeKind} {span : Span} (hnew : (b.attached kind span).IsNew)
    (hkind : ∀ e, kind ≠ .element e) :
    (b.attach kind span).Reported tokens limit' := by
  have hattaches := attaches_attach hb hnew
  obtain ⟨hroot, hfaults⟩ := kept_attach b kind span
  refine h.of_attaches hattaches hfaults (fun r hr => ?_) (fun id _ => ?_) fun e he => ?_
  · rw [hroot] at hr
    rw [hattaches.size]
    exact Nat.lt_succ_of_lt (h.root r hr)
  · rw [hroot, unclosed_attach]
    exact ⟨.rfl, .rfl⟩
  · exact absurd (Node.element?_eq_some.mp he) (hkind e)

/-- What a start tag finds wrong before its element is there. -/
def reportFurther (b : TreeBuilder) (nameSpan : Span) : TreeBuilder :=
  if b.unclosed.isEmpty && b.root.isSome then b.report .multipleRoots nameSpan else b

theorem Reported.reportFurther (h : b.Reported tokens limit) (hb : b.Sound limit)
    {nameSpan : Span} {limit' : Nat} (hpos : 0 < nameSpan.length) (hlimit : limit ≤ nameSpan.offset)
    (hstop : nameSpan.stop ≤ limit') (hplace : ∃ t ∈ tokens, t.kind.nameSpan? = some nameSpan) :
    (b.reportFurther nameSpan).Reported tokens limit' ∧
      (b.reportFurther nameSpan).faultsAt nameSpan =
        if b.unclosed.isEmpty && b.root.isSome then [.multipleRoots] else [] := by
  have hempty := h.faultsAt_eq_nil hlimit hpos
  unfold TreeBuilder.reportFurther
  split
  · rw [faultsAt_report_self, hempty]
    obtain ⟨t, ht, hname⟩ := hplace
    exact ⟨h.report hb _ rfl nofun hlimit hstop ⟨t, ht, .inr hname⟩, rfl⟩
  · refine ⟨h.mono ?_, hempty⟩
    exact Nat.le_trans hlimit (Nat.le_trans (Nat.le_add_right _ _) hstop)

/-- A new element is the last node, stands outside all others if none is open, and becomes the
root if there is none yet. -/
theorem Reported.of_attached {limit' : Nat} (h : b.Reported tokens limit') (hb : b.Sound limit)
    {e : Element} {span : Span} (hnew : (b.attached (.element e) span).IsNew)
    (hname : ∃ t ∈ tokens, t.kind.nameSpan? = some e.nameSpan) (hinside : e.nameSpan.Inside span)
    (hfaults : b.faultsAt e.nameSpan =
      if b.unclosed.isEmpty && b.root.isSome then [.multipleRoots] else [])
    {c : TreeBuilder} (harena : c.arena = (b.attach (.element e) span).arena)
    (htopLevel : c.topLevel = (b.attach (.element e) span).topLevel) (hkept : c.faults = b.faults)
    (hroot : c.root =
      if b.unclosed.isEmpty && b.root.isNone then some b.arena.size else b.root)
    (hunclosed : c.unclosed =
      if e.selfClosing then b.unclosed else b.arena.size :: b.unclosed) :
    c.Reported tokens limit' := by
  have hattaches := attaches_attach hb hnew
  rw [← harena, ← htopLevel] at hattaches
  refine h.of_attaches hattaches hkept (fun r hr => ?_) (fun id hid => ⟨?_, ?_⟩) fun e' he' => ?_
  · rw [hattaches.size]
    rw [hroot] at hr
    split at hr
    · obtain rfl := Option.some.inj hr
      exact Nat.lt_succ_self _
    · exact Nat.lt_succ_of_lt (h.root r hr)
  · rw [hroot]
    split
    · rename_i houtermost
      simp only [Bool.and_eq_true, Option.isNone_iff_eq_none] at houtermost
      simp [houtermost.2, Nat.ne_of_gt hid]
    · rfl
  · rw [hunclosed]
    split
    · rfl
    · simp [Nat.ne_of_lt hid]
  · obtain rfl : e = e' := by
      rw [attached, Node.element?] at he'
      exact Option.some.inj he'
    refine ⟨hname, hinside, ?_⟩
    have htop : b.arena.size ∈ c.topLevel.toList ↔ b.unclosed.isEmpty = true := by
      cases hopen : b.unclosed with
      | nil =>
          have hlevel := hattaches.level_parent
          rw [attached, hopen] at hlevel
          rw [show c.topLevel.toList = b.topLevel.toList ++ [b.arena.size] from hlevel]
          simp
      | cons u outer =>
          have hlevel := hattaches.level_of_ne none (by simp [attached, hopen])
          rw [show c.topLevel.toList = b.topLevel.toList from hlevel]
          simp only [List.isEmpty_cons, Bool.false_eq_true, iff_false]
          intro hmem
          exact Nat.lt_irrefl _ (hb.linked.up none _ hmem).1
    have hfurther : c.IsFurther b.arena.size ↔ (b.unclosed.isEmpty && b.root.isSome) = true := by
      rw [IsFurther, htop, Bool.and_eq_true, hroot]
      refine and_congr_right fun houtermost => ?_
      cases hb' : b.root with
      | none => simp [houtermost]
      | some r => simp [Nat.ne_of_lt (h.root r hb')]
    have hopened : ¬ (e.IsUnclosed ∧ b.arena.size ∉ c.unclosed) := by
      rintro ⟨hopen, hmem⟩
      rw [hunclosed, hopen.2] at hmem
      simp at hmem
    rw [hfaults, faultsOf, if_congr hfurther rfl rfl, if_neg hopened, List.append_nil]

theorem startTag_eq (b : TreeBuilder) (name : String) (nameSpan : Span) (raws : List RawAttribute)
    (selfClosing : Bool) (span : Span) {c : TreeBuilder} (hc : b.reportFurther nameSpan = c) :
    b.startTag name nameSpan raws selfClosing span =
      { c.attach (.element (newElement c.arena.size name nameSpan raws selfClosing)) span with
        root := if c.unclosed.isEmpty && c.root.isNone then some c.arena.size else c.root
        unclosed := if selfClosing then c.unclosed else c.arena.size :: c.unclosed } := by
  have hunclosed : b.unclosed = c.unclosed := by
    rw [← hc, reportFurther]
    split <;> rfl
  have hattach := unclosed_attach c
    (.element (newElement c.arena.size name nameSpan raws selfClosing)) span
  have hroot := (kept_attach c
    (.element (newElement c.arena.size name nameSpan raws selfClosing)) span).1
  unfold startTag
  simp only
  rw [← reportFurther, hc, hunclosed, ← newElement]
  generalize c.attach (.element (newElement c.arena.size name nameSpan raws selfClosing)) span = d
    at hattach hroot ⊢
  rw [← hattach, ← hroot]
  split <;> split <;> rfl

theorem Reported.startTag (h : b.Reported tokens limit) (hb : b.Sound limit) {name : String}
    {nameSpan span : Span} {raws : List RawAttribute} {selfClosing : Bool}
    (ht : ⟨.startTag name nameSpan raws selfClosing, span⟩ ∈ tokens)
    (hinside : nameSpan.Inside span) (hlimit : limit ≤ span.offset) :
    (b.startTag name nameSpan raws selfClosing span).Reported tokens span.stop := by
  have hplace : ∃ t ∈ tokens, t.kind.nameSpan? = some nameSpan := ⟨_, ht, rfl⟩
  have hname : limit ≤ nameSpan.offset := Nat.le_trans hlimit (Nat.le_of_lt hinside.offset_lt)
  obtain ⟨hreported, hfaults⟩ := h.reportFurther hb hinside.length_pos hname hinside.stop_le hplace
  have hsound : (b.reportFurther nameSpan).Sound limit := by
    unfold TreeBuilder.reportFurther
    split
    · exact hb.report _ _
    · exact hb
  have hsame : (b.reportFurther nameSpan).unclosed = b.unclosed ∧
      (b.reportFurther nameSpan).root = b.root := by
    unfold TreeBuilder.reportFurther
    split <;> exact ⟨rfl, rfl⟩
  obtain ⟨hunclosed, hroot⟩ := hsame
  rw [← hunclosed, ← hroot] at hfaults
  rw [startTag_eq b name nameSpan raws selfClosing span rfl]
  refine hreported.of_attached hsound ⟨rfl, rfl, rfl⟩ hplace hinside hfaults rfl rfl ?_ rfl rfl
  exact (kept_attach ..).2

/-! ### Elements that nothing closes any more -/

/-- Reporting elements adds one fault at the name of each. -/
theorem faultsAt_foldl_reportUnclosed (ids : List NodeId) (hids : ids.Nodup)
    (hname : ∀ i j e e', b.arena.element? i = some e → b.arena.element? j = some e' →
      e.nameSpan = e'.nameSpan → i = j) {id : NodeId} {e : Element}
    (he : b.arena.element? id = some e) :
    (ids.foldl reportUnclosed b).faultsAt e.nameSpan =
      b.faultsAt e.nameSpan ++ if id ∈ ids then [.unclosedElement e.name] else [] := by
  induction ids generalizing b with
  | nil => simp
  | cons i ids ih =>
      obtain ⟨hi, hids⟩ := List.nodup_cons.mp hids
      have harena : (b.reportUnclosed i).arena = b.arena := by
        unfold reportUnclosed
        split <;> rfl
      rw [List.foldl_cons, ih hids (by rw [harena]; exact hname) (by rw [harena]; exact he)]
      unfold reportUnclosed
      by_cases hid : i = id
      · subst hid
        rw [he]
        simp only [faultsAt_report_self, hi, if_false, List.append_nil, List.mem_cons, true_or,
          if_true]
      · have hmem : id ∈ i :: ids ↔ id ∈ ids := by simp [Ne.symm hid]
        rw [if_congr hmem rfl rfl]
        split
        · rename_i e' he'
          have hne : e'.nameSpan ≠ e.nameSpan := fun hsame => hid (hname i id e' e he' he hsame)
          rw [faultsAt_report_of_ne _ _ hne]
        · rfl

/-- What reporting elements records. -/
theorem mem_faults_foldl_reportUnclosed (ids : List NodeId) {f : PlacedFault}
    (hf : f ∈ (ids.foldl reportUnclosed b).faults) :
    f ∈ b.faults ∨
      ∃ id e, b.arena.element? id = some e ∧ f = ⟨.unclosedElement e.name, e.nameSpan⟩ := by
  induction ids generalizing b with
  | nil => exact .inl hf
  | cons i ids ih =>
      rw [List.foldl_cons] at hf
      have hstep := ih hf
      unfold reportUnclosed at hstep
      split at hstep
      · rename_i e he
        rcases hstep with hstep | hstep
        · rcases Array.mem_push.mp hstep with hstep | rfl
          · exact .inl hstep
          · exact .inr ⟨i, e, he, rfl⟩
        · exact .inr hstep
      · exact hstep

theorem nodup_unclosed (hb : b.Sound limit) : b.unclosed.Nodup := by
  have hopens := hb.opens
  generalize b.unclosed = unclosed at hopens
  induction unclosed with
  | nil => exact .nil
  | cons u outer ih =>
      have hlt := Arena.lt_of_opens hopens
      refine List.nodup_cons.mpr ⟨fun hmem => Nat.lt_irrefl u (hlt u hmem), ih hopens.2.2⟩

/-- The innermost open elements are reported once nothing can close them any more. -/
theorem Reported.giveUp (h : b.Reported tokens limit) (hb : b.Sound limit)
    {inner outer : List NodeId} (hunclosed : b.unclosed = inner ++ outer) :
    Reported { b with
      faults := (inner.reverse.foldl reportUnclosed b).faults, unclosed := outer }
      tokens limit := by
  have hnodup := nodup_unclosed hb
  have hopen := Arena.isOpen_of_mem hb.opens
  rw [hunclosed] at hnodup hopen
  obtain ⟨hinner, -, hapart⟩ := List.nodup_append.mp hnodup
  have hreverse : inner.reverse.Nodup := (List.reverse_perm inner).nodup_iff.mpr hinner
  refine ⟨h.names, fun f hf => ?_, h.root, fun id e he => ?_, fun f hf name hname => ?_⟩
  · rcases mem_faults_foldl_reportUnclosed _ hf with hf | ⟨id, e, he, rfl⟩
    · exact h.faults f hf
    · obtain ⟨⟨t, ht, hspan⟩, hinside⟩ := h.names id e he
      have hnode := hb.inOrder.stop_le id (Arena.lt_size_of_element? he)
      exact ⟨rfl, Nat.le_trans hinside.stop_le hnode, t, ht, .inr hspan⟩
  · have hfaults := faultsAt_foldl_reportUnclosed inner.reverse hreverse
      (fun i j e e' hi hj hsame => h.eq_of_nameSpan hb hi hj hsame) he
    refine hfaults.trans ?_
    rw [h.atNames id e he]
    by_cases hid : id ∈ inner
    · obtain ⟨e', hkind, hend, hself⟩ := hopen id (List.mem_append_left _ hid)
      obtain rfl : e' = e := Option.some.inj ((Node.element?_eq_some.mpr hkind).symm.trans he)
      have hb : ¬ (e'.IsUnclosed ∧ id ∉ b.unclosed) := fun hno =>
        hno.2 (hunclosed ▸ List.mem_append_left _ hid)
      have hc : e'.IsUnclosed ∧ id ∉ outer :=
        ⟨⟨hend, hself⟩, fun hmem => hapart id hid id hmem rfl⟩
      rw [faultsOf, faultsOf, if_neg hb, if_pos hc, if_pos (List.mem_reverse.mpr hid),
        List.append_nil]
      rfl
    · rw [if_neg (by simpa using hid), List.append_nil]
      refine faultsOf_congr .rfl (and_congr_right fun _ => not_congr ?_) rfl
      rw [hunclosed, List.mem_append, or_iff_right hid]
  · rcases mem_faults_foldl_reportUnclosed _ hf with hf | ⟨id, e, he, rfl⟩
    · exact h.unclosed f hf name hname
    · exact ⟨id, e, he, rfl⟩

/-! ### A new end tag -/

theorem Reported.close (h : b.Reported tokens limit) (hb : b.Sound limit) {u : NodeId}
    {outer : List NodeId} (hunclosed : b.unclosed = u :: outer) (name : String) (span : Span) :
    Reported { b with
      arena := b.arena.close u ⟨.endTag name, span, some u, none⟩, unclosed := outer }
      tokens limit := by
  have hopens := hb.opens
  rw [hunclosed] at hopens
  obtain ⟨opened, hkind, -⟩ := hopens.2.1
  have hcloses := Arena.closes_close (n := ⟨.endTag name, span, some u, none⟩)
    (b.arena.lt_size_of_element hkind) rfl
  have hu : (b.arena.close u ⟨.endTag name, span, some u, none⟩).element? u =
      some { opened with endTag := some b.arena.size } :=
    Node.element?_eq_some.mpr (hcloses.kind_self hkind)
  refine h.of_keeps rfl (fun r hr => ?_) (fun id e he => ?_) fun id e he => .inl ?_
  · rw [hcloses.size]
    exact Nat.lt_succ_of_lt (h.root r hr)
  · by_cases hid : id = u
    · subst hid
      obtain rfl : opened = e := Option.some.inj ((Node.element?_eq_some.mpr hkind).symm.trans he)
      exact ⟨_, hu, rfl⟩
    · refine ⟨e, ?_, rfl⟩
      rw [Arena.element?, hcloses.node_of_ne id (Arena.lt_size_of_element? he) hid]
      exact he
  · by_cases hid : id = u
    · subst hid
      obtain rfl := Option.some.inj (hu.symm.trans he)
      have hspan := (hcloses.kept hkind id (b.arena.lt_size_of_element hkind)).2.2
      refine ⟨opened, Node.element?_eq_some.mpr hkind, rfl, hspan, faultsOf_congr .rfl ?_ rfl⟩
      -- Neither the open element nor the closed one counts as left open.
      refine iff_of_false (fun hc => ?_) fun hb => hb.2 (hunclosed ▸ List.mem_cons_self)
      cases hc.1.1
    · have hlt := Arena.lt_size_of_element? he
      rw [hcloses.size] at hlt
      have hne : id ≠ b.arena.size := by
        rintro rfl
        rw [Arena.element?, hcloses.node_size] at he
        cases he
      have hnode := hcloses.node_of_ne id (Nat.lt_of_le_of_ne (Nat.le_of_lt_succ hlt) hne) hid
      have hmem : id ∈ b.unclosed ↔ id ∈ outer := by simp [hunclosed, hid]
      rw [Arena.element?, hnode] at he
      refine ⟨e, he, rfl, congrArg Node.span hnode, faultsOf_congr .rfl ?_ rfl⟩
      exact and_congr_right fun _ => not_congr hmem.symm

theorem Reported.endTag (h : b.Reported tokens limit) (hb : b.Sound limit) {name : String}
    {span : Span} (ht : ⟨.endTag name, span⟩ ∈ tokens) (hlimit : limit ≤ span.offset) :
    (b.endTag name span).Reported tokens span.stop := by
  have hle : limit ≤ span.stop := Nat.le_trans hlimit (Nat.le_add_right _ _)
  have hsplit := List.takeWhile_append_dropWhile (p := fun id => !isElementNamed b.arena name id)
    (l := b.unclosed)
  unfold TreeBuilder.endTag
  rw [List.span_eq_takeWhile_dropWhile]
  cases hdrop : b.unclosed.dropWhile fun id => !isElementNamed b.arena name id with
  | nil =>
      have hreported := h.report hb (.unmatchedEndTag name) rfl nofun hlimit
        (Nat.le_refl _) ⟨_, ht, .inl rfl⟩
      exact hreported.skip span
  | cons u outer =>
      rw [hdrop] at hsplit
      have hgiven := h.giveUp hb hsplit.symm
      have hopens := hb.opens
      rw [← hsplit] at hopens
      obtain ⟨faults, hfold⟩ := foldl_reportUnclosed
        (b.unclosed.takeWhile fun id => !isElementNamed b.arena name id).reverse b
      rw [hfold] at hgiven
      simp only [hfold]
      have hsound : Sound { b with faults, unclosed := u :: outer } limit :=
        ⟨hb.linked, hopens.outer, hb.numbers, hb.inOrder⟩
      exact (hgiven.close hsound rfl name span).mono hle

/-! ### All tokens -/

theorem Reported.token (h : b.Reported tokens limit) (hb : b.Sound limit) (keepComments : Bool)
    {t : Token} (ht : t ∈ tokens) (hinside : ∀ n ∈ t.kind.nameSpan?, n.Inside t.span)
    (hlimit : limit ≤ t.span.offset) : (b.token keepComments t).Reported tokens t.span.stop := by
  have hle : limit ≤ t.span.stop := Nat.le_trans hlimit (Nat.le_add_right _ _)
  obtain ⟨kind, span⟩ := t
  unfold TreeBuilder.token
  cases kind with
  | startTag name nameSpan raws selfClosing =>
      exact h.startTag hb ht (hinside nameSpan rfl) hlimit
  | endTag name => exact h.endTag hb ht hlimit
  | text content blank =>
      simp only
      split
      · have hreported := h.report hb .textOutsideRoot rfl nofun hlimit (Nat.le_refl _)
          ⟨_, ht, .inl rfl⟩
        refine hreported.attach (hb.report _ _) ⟨rfl, rfl, rfl⟩ ?_
        exact nofun
      · refine (h.attach hb ⟨rfl, rfl, rfl⟩ ?_).mono hle
        exact nofun
  | comment content =>
      simp only
      split
      · refine (h.attach hb ⟨rfl, rfl, rfl⟩ ?_).mono hle
        exact nofun
      · exact (h.skip span).mono hle
  | skipped => exact (h.skip span).mono hle

theorem Reported.foldl_token (keepComments : Bool) {later : List Token} {start stop : Nat}
    (hlater : ∀ t ∈ later, t ∈ tokens ∧ ∀ n ∈ t.kind.nameSpan?, n.Inside t.span)
    (htiles : Tiles start stop (later.map (·.span))) (hb : b.Sound start)
    (h : b.Reported tokens start) :
    (later.foldl (TreeBuilder.token keepComments) b).Reported tokens stop := by
  induction later generalizing b start with
  | nil =>
      obtain rfl : start = stop := htiles
      exact h
  | cons t later ih =>
      obtain ⟨hoffset, hlength, hrest⟩ := htiles
      obtain ⟨ht, hinside⟩ := hlater t List.mem_cons_self
      have hstep := h.token hb keepComments ht hinside hoffset.ge
      have hsound := hb.token keepComments hoffset.ge hlength
      rw [List.foldl_cons]
      exact ih (fun u hu => hlater u (List.mem_cons_of_mem t hu)) hrest hsound hstep

theorem reported_empty (tokens : List Token) : Reported {} tokens 0 := by
  have hnone : ∀ id e, Arena.empty.element? id ≠ some e := fun id e he =>
    Nat.not_lt_zero id (Arena.lt_size_of_element? he)
  exact ⟨fun id e he => absurd he (hnone id e), nofun, nofun, fun id e he => absurd he (hnone id e),
    nofun⟩

/-- The faults of a whole tree: nothing closes the elements that are still open at the end. -/
theorem reported_ofTokens (keepComments : Bool) {tokens : List Token} {stop : Nat}
    (htiles : Tiles 0 stop (tokens.map (·.span)))
    (hinside : ∀ t ∈ tokens, ∀ n ∈ t.kind.nameSpan?, n.Inside t.span) :
    Reported { ofTokens keepComments tokens with unclosed := [] } tokens stop := by
  have hall := (reported_empty tokens).foldl_token keepComments
    (fun t ht => ⟨ht, hinside t ht⟩) htiles sound_empty
  have hsound := sound_empty.foldl_token keepComments htiles
  have hgiven := hall.giveUp hsound (List.append_nil _).symm
  rw [ofTokens, finish]
  obtain ⟨faults, hfold⟩ := foldl_reportUnclosed
    (tokens.foldl (TreeBuilder.token keepComments) {}).unclosed.reverse
    (tokens.foldl (TreeBuilder.token keepComments) {})
  rw [hfold] at hgiven ⊢
  exact hgiven

/-- In a whole tree the first fault at the name of an element is that it is a further one, if it
is, and else that it was left open. -/
theorem Reported.find?_faults (h : b.Reported tokens limit) (hunclosed : b.unclosed = [])
    {id : NodeId} {e : Element} (he : b.arena.element? id = some e) :
    b.faults.toList.find? (·.span == e.nameSpan) =
      if b.IsFurther id then some ⟨.multipleRoots, e.nameSpan⟩
      else if e.IsUnclosed then some ⟨.unclosedElement e.name, e.nameSpan⟩ else none := by
  have hopen : e.IsUnclosed ∧ id ∉ b.unclosed ↔ e.IsUnclosed := by simp [hunclosed]
  have hfirst : (b.faults.toList.find? (·.span == e.nameSpan)).map (·.fault) =
      (b.faultsOf id e).head? := by
    rw [← h.atNames id e he, faultsAt, List.head?_map, List.head?_filter]
  rw [faultsOf, if_congr hopen rfl rfl] at hfirst
  have hplace : b.faults.toList.find? (·.span == e.nameSpan) =
      ((b.faults.toList.find? (·.span == e.nameSpan)).map (·.fault)).map (⟨·, e.nameSpan⟩) := by
    cases hfound : b.faults.toList.find? (·.span == e.nameSpan) with
    | none => rfl
    | some f =>
        have hspan : f.span = e.nameSpan := by simpa using List.find?_some hfound
        rw [Option.map_some, Option.map_some, ← hspan]
  rw [hplace, hfirst]
  split_ifs <;> rfl

end TreeBuilder

end PatternMarkup
