import Mathlib.Data.List.Pairwise
import PatternMarkup.Proofs.Markup.FirstReports
import PatternMarkup.Proofs.Markup.TreeFaults
/-!
What the reports of a document say. Only the first fault at a span is reported. An error stays
unreported together with all others there is only where an attribute without a value repeats a
name; and an element that was left open is reported unless it is a further one outside all others.
-/

namespace PatternMarkup

open PlacedFault

/-! ### Faults of tokens -/

theorem Tiles.pairwise_stop_le {start stop : Nat} {spans : List Span}
    (h : Tiles start stop spans) : spans.Pairwise fun s t => s.stop ≤ t.offset := by
  induction spans generalizing start with
  | nil => exact .nil
  | cons first later ih =>
      obtain ⟨rfl, hlength, hlater⟩ := h
      exact List.pairwise_cons.mpr ⟨hlater.le_offset, ih hlater⟩

namespace Scanner

variable {scanned : List Scanned} {s t : Scanned} {span : Span}

/-- Tokens that follow one another share no byte. -/
theorem eq_of_common (h : scanned.Pairwise fun s t => s.token.span.stop ≤ t.token.span.offset)
    (hs : s ∈ scanned) (ht : t ∈ scanned) (hpos : 0 < span.length)
    (hsStart : s.token.span.offset ≤ span.offset) (hsStop : span.stop ≤ s.token.span.stop)
    (htStart : t.token.span.offset ≤ span.offset) (htStop : span.stop ≤ t.token.span.stop) :
    s = t := by
  have hdisjoint : scanned.Pairwise fun s t =>
      s.token.span.stop ≤ t.token.span.offset ∨ t.token.span.stop ≤ s.token.span.offset :=
    h.imp .inl
  have hsymm : Std.Symm fun s t : Scanned =>
      s.token.span.stop ≤ t.token.span.offset ∨ t.token.span.stop ≤ s.token.span.offset :=
    ⟨fun _ _ => Or.symm⟩
  by_contra hne
  have hapart := hdisjoint.forall hs ht hne
  unfold Span.stop at *
  omega

/-- The faults of tokens that follow one another are in order. -/
theorem ordered_flatMap (h : scanned.Pairwise fun s t => s.token.span.stop ≤ t.token.span.offset)
    (hplaced : ∀ s ∈ scanned, s.Placed) : (scanned.flatMap (·.faults)).Pairwise Precedes := by
  rw [List.pairwise_flatMap]
  refine ⟨fun s hs => (hplaced s hs).ordered, h.imp_of_mem fun {s t} hs ht hst g hg f hf => ?_⟩
  have hg := (hplaced s hs).faults g hg
  have hf := (hplaced t ht).faults f hf
  exact hg.precedes (hf.mono hst (Nat.le_refl _))

end Scanner

/-- How the faults of a text stand to its tokens. -/
structure TokenStream.Separated (stream : TokenStream) : Prop where
  ofTree : ∀ f ∈ stream.faults, f.fault.ofTree = false
  ordered : stream.faults.Pairwise Precedes
  inside : ∀ t ∈ stream.tokens, ∀ n ∈ t.kind.nameSpan?, n.Inside t.span
  /-- No fault of a token is at the name of an element. -/
  names : ∀ f ∈ stream.faults, ∀ t ∈ stream.tokens, ∀ n ∈ t.kind.nameSpan?, f.span ≠ n
  /-- No warning is at a whole token. -/
  tokens : ∀ f ∈ stream.faults, f.fault.severity = .warning → ∀ t ∈ stream.tokens,
    f.span ≠ t.span

theorem TokenStream.separated_ofSource (source : String) : (ofSource source).Separated := by
  have hplaced := Scanner.placed_scanAll (Cursor.ofString source)
  have htiles := tiles_ofSource source
  have hfollow : (Scanner.scanAll (Cursor.ofString source)).Pairwise fun s t =>
      s.token.span.stop ≤ t.token.span.offset := by
    have hpairwise := htiles.pairwise_stop_le
    rw [spans, List.pairwise_map] at hpairwise
    exact List.pairwise_map.mp hpairwise
  refine ⟨fun f hf => ?_, Scanner.ordered_flatMap hfollow hplaced, fun t ht => ?_,
    fun f hf t ht n hn => ?_, fun f hf hwarning t ht => ?_⟩
  · obtain ⟨s, hs, hf⟩ := List.mem_flatMap.mp hf
    exact ((hplaced s hs).faults f hf).ofTree
  · obtain ⟨s, hs, rfl⟩ := List.mem_map.mp ht
    exact (hplaced s hs).inside
  · obtain ⟨s, hs, hf⟩ := List.mem_flatMap.mp hf
    obtain ⟨u, hu, rfl⟩ := List.mem_map.mp ht
    rintro rfl
    have hinside := (hplaced u hu).inside f.span hn
    have hlies := (hplaced s hs).faults f hf
    obtain rfl := Scanner.eq_of_common hfollow hs hu hinside.length_pos hlies.start_le hlies.stop_le
      (Nat.le_of_lt hinside.offset_lt) hinside.stop_le
    exact (hplaced s hs).apart f.span hn f hf rfl
  · obtain ⟨s, hs, hf⟩ := List.mem_flatMap.mp hf
    obtain ⟨u, hu, rfl⟩ := List.mem_map.mp ht
    intro hspan
    have hlies := (hplaced s hs).faults f hf
    obtain rfl := Scanner.eq_of_common hfollow hs hu (hlies.length_pos hwarning) hlies.start_le
      hlies.stop_le (Nat.le_of_eq (by rw [hspan])) (Nat.le_of_eq (by rw [hspan]))
    have hbehind := (hplaced s hs).behind f hf hwarning
    rw [hspan] at hbehind
    exact Nat.lt_irrefl _ hbehind

/-! ### Faults of documents -/

namespace PlacedFault

/-- The fault is a repeated attribute at a place where the same name lacks a value as well. -/
def IsMasked (f : PlacedFault) (faults : List PlacedFault) : Prop :=
  ∃ name, f.fault = .duplicateAttribute name ∧ ⟨.missingAttributeValue name, f.span⟩ ∈ faults

theorem firstAt_map_diagnostic (faults : List PlacedFault) (span : Span) :
    Diagnostics.firstAt (faults.map (·.diagnostic)) span =
      (faults.find? (·.span == span)).map (·.diagnostic) := by
  rw [Diagnostics.firstAt, List.find?_map]
  rfl

/-- Of faults in order the first one at a span is an error, if there is an error which is not
masked. -/
theorem isError_of_find? {faults : List PlacedFault} (hordered : faults.Pairwise Precedes)
    {f g : PlacedFault} (hf : f ∈ faults) (herror : f.fault.severity = .error)
    (hmasked : ¬ f.IsMasked faults) (hg : faults.find? (·.span == f.span) = some g) :
    g.fault.severity = .error := by
  obtain ⟨hspan, before, after, rfl, hbefore⟩ := List.find?_eq_some_iff_append.mp hg
  have hspan : g.span = f.span := by simpa using hspan
  have hafter := (List.pairwise_append.mp hordered).2.1
  rcases List.mem_append.mp hf with hf | hf
  · have hne := hbefore f hf
    simp at hne
  · rcases List.mem_cons.mp hf with rfl | hf
    · exact herror
    · cases hseverity : g.fault.severity with
      | error => rfl
      | warning =>
          have hprecedes := (List.pairwise_cons.mp hafter).1 f hf
          obtain ⟨name, hmissing, hduplicate⟩ := hprecedes.repeats hseverity herror hspan
          refine absurd ⟨name, hduplicate, ?_⟩ hmasked
          rw [← hmissing, ← hspan]
          exact List.mem_append_right _ List.mem_cons_self

/-- The first fault at a span is not masked. -/
theorem not_isMasked_of_find? {faults : List PlacedFault} (hordered : faults.Pairwise Precedes)
    {f : PlacedFault} (hf : faults.find? (·.span == f.span) = some f) : ¬ f.IsMasked faults := by
  rintro ⟨name, hduplicate, hmem⟩
  obtain ⟨-, before, after, rfl, hbefore⟩ := List.find?_eq_some_iff_append.mp hf
  have hafter := (List.pairwise_append.mp hordered).2.1
  rcases List.mem_append.mp hmem with hmem | hmem
  · have hne := hbefore _ hmem
    simp at hne
  · rcases List.mem_cons.mp hmem with heq | hmem
    · rw [← heq] at hduplicate
      cases hduplicate
    · exact ((List.pairwise_cons.mp hafter).1 _ hmem).fresh name rfl rfl

end PlacedFault

namespace MarkupFault

/-- Only the message about an element that is not closed starts as it does. -/
theorem take_message {fault : MarkupFault} (h : ∀ name, fault ≠ .unclosedElement name) :
    fault.message.toList.take 2 ≠ ['e', 'l'] := by
  rw [message.eq_def]
  cases fault with
  | unclosedElement name => exact absurd rfl (h name)
  | _ => simp

theorem exists_eq_of_message {fault : MarkupFault} {name : String}
    (h : fault.message = (unclosedElement name).message) :
    ∃ name', fault = .unclosedElement name' := by
  by_contra hother
  refine take_message (fun name' heq => hother ⟨name', heq⟩) ?_
  rw [h, message.eq_def]
  simp

end MarkupFault

namespace Document

variable (source : String) (keepComments : Bool)

theorem reported_ofSource :
    TreeBuilder.Reported
      { TreeBuilder.ofTokens keepComments (TokenStream.ofSource source).tokens with unclosed := [] }
      (TokenStream.ofSource source).tokens source.utf8ByteSize :=
  TreeBuilder.reported_ofTokens keepComments (TokenStream.tiles_ofSource source)
    (TokenStream.separated_ofSource source).inside

variable {source keepComments} in
/-- No two elements have their names at one place. -/
theorem eq_of_nameSpan_eq {i j : NodeId} {e e' : Element}
    (hi : (ofSource source keepComments).arena.element? i = some e)
    (hj : (ofSource source keepComments).arena.element? j = some e')
    (h : e.nameSpan = e'.nameSpan) : i = j := by
  have hinside : ∀ {id e}, (ofSource source keepComments).arena.element? id = some e →
      e.nameSpan.Inside ((ofSource source keepComments).arena.node id).span := fun he =>
    ((reported_ofSource source keepComments).names _ _ he).2
  have horder : (ofSource source keepComments).arena.InOrder source.utf8ByteSize :=
    (TreeBuilder.sound_ofTokens keepComments (TokenStream.tiles_ofSource source)).inOrder
  obtain ⟨hoffset, hlength, hstop⟩ := hinside hi
  obtain ⟨hoffset', -, hstop'⟩ := hinside hj
  rw [← h] at hoffset' hstop'
  unfold Span.stop at hstop hstop'
  rcases Nat.lt_trichotomy i j with hij | rfl | hji
  · have hle := horder.stop_le_offset i j hij (Arena.lt_size_of_element? hj)
    unfold Span.stop at hle
    omega
  · rfl
  · have hle := horder.stop_le_offset j i hji (Arena.lt_size_of_element? hi)
    unfold Span.stop at hle
    omega

/-- The faults of a document are in order. Those of its tree are errors, where no warning is. -/
theorem ordered_faults : (ofSource source keepComments).faults.Pairwise Precedes := by
  have hstream := TokenStream.separated_ofSource source
  have htree := (reported_ofSource source keepComments).faults
  refine List.pairwise_append.mpr ⟨hstream.ordered, ?_, fun g hg f hf => ?_⟩
  · refine List.pairwise_of_forall_mem_list fun g hg f hf => ?_
    have hg := (htree g (Array.mem_toList_iff.mp hg)).1
    have hf := (htree f (Array.mem_toList_iff.mp hf)).1
    exact precedes_of_error hg (ne_missing_of_error hf)
  · obtain ⟨herror, -, t, ht, hplace⟩ := htree f (Array.mem_toList_iff.mp hf)
    cases hseverity : g.fault.severity with
    | error => exact precedes_of_error hseverity (ne_missing_of_error herror)
    | warning =>
        refine precedes_of_span_ne ?_
        rcases hplace with hspan | hname
        · rw [hspan]
          exact hstream.tokens g hg hseverity t ht
        · exact hstream.names g hg t ht f.span hname

/-- A document has an error among its reports exactly if one was found which is not that of a
repeated attribute without a value. -/
theorem hasErrors_ofSource :
    (ofSource source keepComments).diagnostics.hasErrors = true ↔
      ∃ f ∈ (ofSource source keepComments).faults, f.fault.severity = .error ∧
        ¬ f.IsMasked (ofSource source keepComments).faults := by
  have hordered := ordered_faults source keepComments
  rw [Diagnostics.hasErrors, List.any_eq_true]
  constructor
  · rintro ⟨d, hd, herror⟩
    rw [diagnostics, Diagnostics.mem_items_ofList, firstAt_map_diagnostic] at hd
    obtain ⟨f, hf, rfl⟩ := Option.map_eq_some_iff.mp hd
    exact ⟨f, List.mem_of_find?_eq_some hf, beq_iff_eq.mp herror,
      not_isMasked_of_find? hordered hf⟩
  · rintro ⟨f, hf, herror, hmasked⟩
    have hsome : ((ofSource source keepComments).faults.find? (·.span == f.span)).isSome :=
      List.find?_isSome.mpr ⟨f, hf, beq_self_eq_true f.span⟩
    obtain ⟨g, hg⟩ := Option.isSome_iff_exists.mp hsome
    have hspan : g.span = f.span := by simpa using List.find?_some hg
    refine ⟨g.diagnostic, ?_, ?_⟩
    · rw [diagnostics, Diagnostics.mem_items_ofList, firstAt_map_diagnostic,
        show g.diagnostic.span = f.span from hspan, hg, Option.map_some]
    · exact beq_iff_eq.mpr (isError_of_find? hordered hf herror hmasked hg)

/-- A repeated attribute without a value is an error that no report tells of. -/
theorem not_hasErrors_valueless :
    (ofSource "<a x x/>" false).diagnostics.hasErrors = false ∧
      ∃ f ∈ (ofSource "<a x x/>" false).faults, f.fault.severity = .error := by
  decide +kernel

/-! ### Elements that are not closed -/

/-- The first fault of a document at the name of an element is that of its tree. -/
theorem find?_faults_nameSpan {id : NodeId} {e : Element}
    (he : (ofSource source keepComments).arena.element? id = some e) :
    (ofSource source keepComments).faults.find? (·.span == e.nameSpan) =
      if id ∈ (ofSource source keepComments).topLevel ∧
          (ofSource source keepComments).root ≠ some id then
        some ⟨.multipleRoots, e.nameSpan⟩
      else if e.IsUnclosed then some ⟨.unclosedElement e.name, e.nameSpan⟩ else none := by
  have htree := reported_ofSource source keepComments
  obtain ⟨t, ht, hname⟩ := (htree.names id e he).1
  have hstream : (TokenStream.ofSource source).faults.find? (·.span == e.nameSpan) = none := by
    refine List.find?_eq_none.mpr fun f hf => ?_
    simpa using (TokenStream.separated_ofSource source).names f hf t ht e.nameSpan hname
  rw [show (ofSource source keepComments).faults = (TokenStream.ofSource source).faults ++
    (TreeBuilder.ofTokens keepComments (TokenStream.ofSource source).tokens).faults.toList from rfl,
    List.find?_append, hstream, Option.none_or]
  exact htree.find?_faults rfl he

/-- What is reported at the name of an element: that it is a further one outside all others, if it
is, and else that it is not closed, if it was left open. Nothing else is reported as not closed. -/
theorem reports_unclosed :
    (∀ id e, (ofSource source keepComments).arena.element? id = some e →
      (ofSource source keepComments).diagnostics.items.filter (·.span == e.nameSpan) =
        if id ∈ (ofSource source keepComments).topLevel ∧
            (ofSource source keepComments).root ≠ some id then
          [PlacedFault.diagnostic ⟨.multipleRoots, e.nameSpan⟩]
        else if e.IsUnclosed then
          [PlacedFault.diagnostic ⟨.unclosedElement e.name, e.nameSpan⟩]
        else []) ∧
    ∀ d ∈ (ofSource source keepComments).diagnostics.items, ∀ name,
      d.message = (MarkupFault.unclosedElement name).message →
        ∃ id e, (ofSource source keepComments).arena.element? id = some e ∧ e.IsUnclosed ∧
          d = PlacedFault.diagnostic ⟨.unclosedElement e.name, e.nameSpan⟩ := by
  constructor
  · intro id e he
    rw [diagnostics, Diagnostics.filter_items_ofList, firstAt_map_diagnostic,
      find?_faults_nameSpan source keepComments he]
    split_ifs <;> rfl
  · intro d hd name hmessage
    rw [diagnostics, Diagnostics.mem_items_ofList, firstAt_map_diagnostic] at hd
    obtain ⟨f, hf, rfl⟩ := Option.map_eq_some_iff.mp hd
    obtain ⟨name', hfault⟩ := MarkupFault.exists_eq_of_message hmessage
    have htree : f ∈ (TreeBuilder.ofTokens keepComments
        (TokenStream.ofSource source).tokens).faults.toList := by
      rcases List.mem_append.mp (List.mem_of_find?_eq_some hf) with hmem | hmem
      · have hkind := (TokenStream.separated_ofSource source).ofTree f hmem
        rw [hfault] at hkind
        cases hkind
      · exact hmem
    obtain ⟨id, e, he, hspan⟩ := (reported_ofSource source keepComments).unclosed f
      (Array.mem_toList_iff.mp htree) name' hfault
    rw [show f.diagnostic.span = e.nameSpan from hspan,
      find?_faults_nameSpan source keepComments he] at hf
    split_ifs at hf with hfurther hunclosed
    · obtain rfl := Option.some.inj hf
      cases hfault
    · exact ⟨id, e, he, hunclosed, by rw [Option.some.inj hf]⟩

/-- An open element beside the root is not reported as such. -/
theorem not_reported_further :
    (ofSource "<a/><b>" false).arena.element? 1 = some ⟨"b", ⟨5, 1, 6, 1⟩, [], [], none, false⟩ ∧
      ∀ d ∈ (ofSource "<a/><b>" false).diagnostics.items,
        d.message ≠ (MarkupFault.unclosedElement "b").message := by
  decide +kernel

end Document

end PatternMarkup
