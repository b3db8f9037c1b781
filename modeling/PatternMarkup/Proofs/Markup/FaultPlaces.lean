import PatternMarkup.Proofs.Markup.Coverage
import PatternMarkup.Proofs.Markup.ScannedPlaces
/-!
Which faults of a text share a span. A fault lies in the token it was found in, a warning behind
the name in its tag; so where an error follows a warning at the same span, an attribute without a
value repeats the name of an earlier one.
-/

namespace PatternMarkup

/-- Whether a fault is found in building the tree, not in a token. -/
def MarkupFault.ofTree : MarkupFault → Bool
  | unmatchedEndTag _ | unclosedElement _ | multipleRoots | textOutsideRoot => true
  | _ => false

namespace PlacedFault

/-- The fault is one of a token and lies between two bytes. A warning covers at least one of
them. -/
structure LiesIn (f : PlacedFault) (start stop : Nat) : Prop where
  ofTree : f.fault.ofTree = false
  start_le : start ≤ f.span.offset
  stop_le : f.span.stop ≤ stop
  length_pos : f.fault.severity = .warning → 0 < f.span.length

/-- How a fault stands to a later one. A value that is missing is the first thing to be found at
its name; and an error comes after a warning at the same span only where that value is missing and
the name stands in the tag already. -/
structure Precedes (g f : PlacedFault) : Prop where
  fresh : ∀ name, f.fault = .missingAttributeValue name → g.span ≠ f.span
  repeats : g.fault.severity = .warning → f.fault.severity = .error → g.span = f.span →
    ∃ name, g.fault = .missingAttributeValue name ∧ f.fault = .duplicateAttribute name

variable {f g : PlacedFault} {start middle stop : Nat}

theorem LiesIn.mono (h : f.LiesIn start stop) {start' stop' : Nat} (hstart : start' ≤ start)
    (hstop : stop ≤ stop') : f.LiesIn start' stop' :=
  ⟨h.ofTree, Nat.le_trans hstart h.start_le, Nat.le_trans h.stop_le hstop, h.length_pos⟩

theorem liesIn_of_error (herror : f.fault.severity = .error) (htree : f.fault.ofTree = false)
    (hstart : start ≤ f.span.offset) (hstop : f.span.stop ≤ stop) : f.LiesIn start stop := by
  refine ⟨htree, hstart, hstop, fun hwarning => ?_⟩
  rw [herror] at hwarning
  cases hwarning

/-- Faults with different spans may come in any order. -/
theorem precedes_of_span_ne (h : g.span ≠ f.span) : g.Precedes f :=
  ⟨fun _ _ => h, fun _ _ hspan => absurd hspan h⟩

theorem severity_of_missing {name : String} (h : f.fault = .missingAttributeValue name) :
    f.fault.severity = .warning := by
  rw [h]
  rfl

/-- An error may come before anything but a value that is missing. -/
theorem precedes_of_error (hg : g.fault.severity = .error)
    (hf : ∀ name, f.fault ≠ .missingAttributeValue name) : g.Precedes f := by
  refine ⟨fun name hname => absurd hname (hf name), fun hwarning => ?_⟩
  rw [hg] at hwarning
  cases hwarning

theorem ne_missing_of_error (hf : f.fault.severity = .error) (name : String) :
    f.fault ≠ .missingAttributeValue name := by
  intro h
  rw [severity_of_missing h] at hf
  cases hf

/-- Faults that lie one after the other share a span only if it is empty. -/
theorem LiesIn.precedes (hg : g.LiesIn start middle) (hf : f.LiesIn middle stop) :
    g.Precedes f := by
  have hempty : g.span = f.span → ¬ 0 < g.span.length := by
    intro hspan hpos
    have hgStop := hg.stop_le
    have hfStart := hf.start_le
    rw [hspan] at hgStop hpos
    unfold Span.stop at hgStop
    omega
  refine ⟨fun name hname hspan => ?_, fun hwarning _ hspan => ?_⟩
  · have hpos := hf.length_pos (severity_of_missing hname)
    rw [← hspan] at hpos
    exact hempty hspan hpos
  · exact absurd (hg.length_pos hwarning) (hempty hspan)

/-- Errors of a token that lie between two bytes. -/
def ErrorsIn (faults : List PlacedFault) (start stop : Nat) : Prop :=
  ∀ f ∈ faults, f.fault.severity = .error ∧ f.LiesIn start stop

namespace ErrorsIn

variable {faults more : List PlacedFault}

theorem nil : ErrorsIn [] start stop := List.forall_mem_nil _

theorem cons (herror : f.fault.severity = .error) (htree : f.fault.ofTree = false)
    (hstart : start ≤ f.span.offset) (hstop : f.span.stop ≤ stop)
    (h : ErrorsIn faults start stop) : ErrorsIn (f :: faults) start stop := by
  intro g hg
  rcases List.mem_cons.mp hg with rfl | hg
  · exact ⟨herror, liesIn_of_error herror htree hstart hstop⟩
  · exact h g hg

theorem singleton (herror : f.fault.severity = .error) (htree : f.fault.ofTree = false)
    (hstart : start ≤ f.span.offset) (hstop : f.span.stop ≤ stop) : ErrorsIn [f] start stop :=
  nil.cons herror htree hstart hstop

theorem append (h : ErrorsIn faults start stop) (hmore : ErrorsIn more start stop) :
    ErrorsIn (faults ++ more) start stop := by
  intro g hg
  rcases List.mem_append.mp hg with hg | hg
  · exact h g hg
  · exact hmore g hg

theorem mono (h : ErrorsIn faults start stop) {start' stop' : Nat} (hstart : start' ≤ start)
    (hstop : stop ≤ stop') : ErrorsIn faults start' stop' := fun f hf =>
  ⟨(h f hf).1, (h f hf).2.mono hstart hstop⟩

theorem liesIn (h : ErrorsIn faults start stop) : ∀ f ∈ faults, f.LiesIn start stop :=
  fun f hf => (h f hf).2

theorem not_warning (h : ErrorsIn faults start stop) (hf : f ∈ faults) :
    f.fault.severity ≠ .warning := by
  rw [(h f hf).1]
  decide

theorem ordered (h : ErrorsIn faults start stop) : faults.Pairwise Precedes := by
  refine List.pairwise_iff_forall_sublist.mpr fun {g f} hsub => ?_
  have hg := h g (hsub.subset (by simp))
  have hf := h f (hsub.subset (by simp))
  exact precedes_of_error hg.1 (ne_missing_of_error hf.1)

end ErrorsIn

end PlacedFault

open PlacedFault

/-- The place of the name in a start tag. -/
def TokenKind.nameSpan? : TokenKind → Option Span
  | .startTag _ nameSpan _ _ => some nameSpan
  | _ => none

/-- The span covers something, inside another one and behind its first byte. -/
structure Span.Inside (s t : Span) : Prop where
  offset_lt : t.offset < s.offset
  length_pos : 0 < s.length
  stop_le : s.stop ≤ t.stop

theorem Cursor.Reaches.offset_le {c d : Cursor} (h : c.Reaches d) :
    c.place.offset ≤ d.place.offset := by
  obtain ⟨text, -, hplace⟩ := h
  rw [hplace, Position.offset_after]
  exact Nat.le_add_right _ _

theorem Position.stop_spanTo {p q : Position} (h : p.offset ≤ q.offset) :
    (p.spanTo q).stop = q.offset :=
  Nat.add_sub_cancel' h

namespace Scanner

/-! ### Runs of text -/

theorem byteLength_of_split? {rest body after : List Char}
    (h : Entity.split? rest = some (body, after)) :
    byteLength ('&' :: rest) = byteLength (Entity.written body) + byteLength after := by
  rw [Entity.eq_of_split? h, ← byteLength_append]
  simp [Entity.written]

/-- What lies in the rest of a text lies in the text. -/
theorem errorsIn_of_after {faults : List PlacedFault} {place : Position} (front : List Char)
    {rest : List Char}
    (h : ErrorsIn faults (place.after front).offset
      ((place.after front).offset + byteLength rest)) :
    ErrorsIn faults place.offset (place.offset + (byteLength front + byteLength rest)) := by
  rw [Position.offset_after, Nat.add_assoc] at h
  exact h.mono (Nat.le_add_right _ _) (Nat.le_refl _)

/-- The faults of a run of text are errors in it. -/
theorem errorsIn_runFaults (betweenTags : Bool) (place : Position) (run : List Char) :
    ErrorsIn (runFaults betweenTags place run) place.offset
      (place.offset + byteLength run) := by
  fun_induction runFaults betweenTags place run with
  | case1 => exact .nil
  | case2 place run body after hsplit written later hknown ih =>
      rw [byteLength_of_split? hsplit]
      exact errorsIn_of_after _ ih
  | case3 place run body after hsplit written later hknown ih =>
      rw [byteLength_of_split? hsplit]
      refine (errorsIn_of_after _ ih).cons rfl rfl (Nat.le_refl _) ?_
      exact Nat.add_le_add_left (Nat.le_add_right _ _) _
  | case4 place run hsplit ih =>
      refine (errorsIn_of_after ['&'] ih).cons rfl rfl (Nat.le_refl _) ?_
      exact Nat.add_le_add_left (Nat.le_add_right _ _) _
  | case5 place c run hc hless ih =>
      obtain rfl : c = '<' := by
        simp only [Bool.and_eq_true, decide_eq_true_eq] at hless
        exact hless.1
      refine (errorsIn_of_after ['<'] ih).cons rfl rfl (Nat.le_refl _) ?_
      exact Nat.add_le_add_left (Nat.le_add_right _ _) _
  | case6 place c run hc hless ih => exact errorsIn_of_after [c] ih

/-! ### Attributes -/

/-- The faults of an attribute lie between the start of its name and the cursor after it, and a
warning at the name is about a missing value. -/
structure ScannedAttribute.Placed (s : ScannedAttribute) (name : String) (nameSpan : Span) :
    Prop where
  name_eq : s.value.name = name
  nameSpan_eq : s.value.nameSpan = nameSpan
  stop_le : nameSpan.stop ≤ s.cursor.place.offset
  faults : ∀ f ∈ s.faults, f.LiesIn nameSpan.offset s.cursor.place.offset
  ordered : s.faults.Pairwise Precedes
  atName : ∀ f ∈ s.faults, f.fault.severity = .warning → f.span = nameSpan →
    f.fault = .missingAttributeValue name

variable {name : String} {nameSpan : Span} {cursor : Cursor}

theorem placed_withoutValue (hpos : 0 < nameSpan.length)
    (hname : nameSpan.stop ≤ cursor.place.offset) :
    (withoutValue name nameSpan cursor).Placed name nameSpan where
  name_eq := rfl
  nameSpan_eq := rfl
  stop_le := hname
  faults f hf := by
    obtain rfl := List.mem_singleton.mp hf
    exact ⟨rfl, Nat.le_refl _, hname, fun _ => hpos⟩
  ordered := List.pairwise_singleton _ _
  atName f hf _ _ := by
    obtain rfl := List.mem_singleton.mp hf
    rfl

theorem placed_quotedValue (hname : nameSpan.stop ≤ cursor.place.offset) (quote : Char) :
    (quotedValue name nameSpan quote cursor).Placed name nameSpan := by
  have hstart : nameSpan.offset ≤ cursor.place.offset :=
    Nat.le_trans (Nat.le_add_right _ _) hname
  have hrun := (errorsIn_runFaults false cursor.place (cursor.rest.takeWhile (· != quote))).mono
    hstart (Nat.le_refl _)
  have hstop := Nat.le_trans hname (reaches_quotedValue name nameSpan quote cursor).offset_le
  -- All faults of a value in quotes are errors, the one of a missing quote among them.
  have herrors : (quotedValue name nameSpan quote cursor).value.name = name ∧
      (quotedValue name nameSpan quote cursor).value.nameSpan = nameSpan ∧
      ErrorsIn (quotedValue name nameSpan quote cursor).faults nameSpan.offset
        (quotedValue name nameSpan quote cursor).cursor.place.offset := by
    rw [← Position.offset_after] at hrun
    unfold quotedValue
    simp only
    split
    · refine ⟨rfl, rfl, hrun.append (.singleton rfl rfl hstart ?_)⟩
      exact (Position.offset_after _ _).ge
    · rename_i c after hdrop
      have hreaches : Cursor.Reaches
          ⟨cursor.place.after (cursor.rest.takeWhile (· != quote)), c :: after⟩ _ :=
        Cursor.reaches_next rfl
      exact ⟨rfl, rfl, hrun.mono (Nat.le_refl _) hreaches.offset_le⟩
  obtain ⟨hvalue, hspan, hfaults⟩ := herrors
  exact ⟨hvalue, hspan, hstop, hfaults.liesIn, hfaults.ordered,
    fun f hf hwarning => absurd hwarning (hfaults.not_warning hf)⟩

/-- A value without quotes has at least one character. -/
theorem byteLength_splitUnquoted_pos {text : List Char} (hlacks : lacksValue text = false)
    (hblank : ∀ c ∈ text.head?, isBlank c = false) : 0 < byteLength (splitUnquoted text).1 := by
  refine byteLength_pos ?_
  unfold splitUnquoted
  split
  · cases hlacks
  · rename_i c rest
    have hcontinues : continuesValue (c :: rest) = true := by
      unfold lacksValue at hlacks
      unfold continuesValue
      split at hlacks <;> split <;> simp_all
    rw [if_pos hcontinues]
    exact List.cons_ne_nil _ _

theorem placed_unquotedValue (hpos : 0 < nameSpan.length)
    (hname : nameSpan.stop ≤ cursor.place.offset)
    (hvalue : 0 < byteLength (splitUnquoted cursor.rest).1) :
    (unquotedValue name nameSpan cursor).Placed name nameSpan := by
  have hstart : nameSpan.offset < cursor.place.offset :=
    Nat.lt_of_lt_of_le (Nat.lt_add_of_pos_right hpos) hname
  have hrun := errorsIn_runFaults false cursor.place (splitUnquoted cursor.rest).1
  rw [← Position.offset_after] at hrun
  refine ⟨rfl, rfl, ?_, fun f hf => ?_, ?_, fun f hf hwarning hspan => ?_⟩
  · exact Nat.le_trans hname (Cursor.reaches_after (append_splitUnquoted _)).offset_le
  · rcases List.mem_append.mp hf with hf | hf
    · exact (hrun.mono (Nat.le_of_lt hstart) (Nat.le_refl _)).liesIn f hf
    · obtain rfl := List.mem_singleton.mp hf
      exact ⟨rfl, Nat.le_of_lt hstart, (Position.offset_after _ _).ge, fun _ => hvalue⟩
  · refine List.pairwise_append.mpr ⟨hrun.ordered, List.pairwise_singleton _ _, fun g hg f hf => ?_⟩
    obtain rfl := List.mem_singleton.mp hf
    exact precedes_of_error (hrun g hg).1 nofun
  · rcases List.mem_append.mp hf with hf | hf
    · exact absurd hwarning (hrun.not_warning hf)
    · obtain rfl := List.mem_singleton.mp hf
      exact absurd (congrArg Span.offset hspan) (Nat.ne_of_gt hstart)

theorem placed_valueAfterEquals (hpos : 0 < nameSpan.length)
    (hname : nameSpan.stop ≤ cursor.place.offset) :
    (valueAfterEquals name nameSpan cursor).Placed name nameSpan := by
  have hskip := Nat.le_trans hname (cursor.reaches_skip isBlank).offset_le
  have hquote := Nat.le_trans hskip ((cursor.skip isBlank).reaches_advance 1).offset_le
  unfold valueAfterEquals
  simp only
  split
  · exact placed_withoutValue hpos hskip
  · rename_i hlacks
    split
    · exact placed_quotedValue hquote '"'
    · exact placed_quotedValue hquote '\''
    · refine placed_unquotedValue hpos hskip ?_
      refine byteLength_splitUnquoted_pos (by simpa using hlacks) fun c hc => ?_
      have hhead := List.head?_dropWhile_not isBlank cursor.rest
      rw [show cursor.rest.dropWhile isBlank = (cursor.skip isBlank).rest from rfl,
        show (cursor.skip isBlank).rest.head? = some c from hc] at hhead
      simpa using hhead

/-- The name of an attribute starts at the cursor. -/
theorem placed_scanAttribute {c : Char} {rest : List Char} (hrest : cursor.rest = c :: rest)
    (hc : isNameChar c = true) :
    (scanAttribute cursor).Placed (String.ofList (cursor.rest.takeWhile isNameChar))
      (cursor.place.spanOf (cursor.rest.takeWhile isNameChar)) := by
  have hpos : 0 < (cursor.place.spanOf (cursor.rest.takeWhile isNameChar)).length := by
    refine byteLength_pos ?_
    rw [hrest, List.takeWhile_cons_of_pos hc]
    exact List.cons_ne_nil _ _
  have hname : (cursor.place.spanOf (cursor.rest.takeWhile isNameChar)).stop
      = (cursor.skip isNameChar).place.offset := (Position.offset_after _ _).symm
  have hafter := Nat.le_trans hname.le ((cursor.skip isNameChar).reaches_skip isBlank).offset_le
  unfold scanAttribute
  simp only
  split
  · exact placed_valueAfterEquals hpos
      (Nat.le_trans hafter (Cursor.reaches_advance 1 _).offset_le)
  · exact placed_withoutValue hpos hafter

/-! ### Tags -/

/-- Where the faults inside a start tag lie: behind the cursor; but that of a text which ends in
the tag starts with the tag. -/
def InTag (f : PlacedFault) (start cursor stop : Nat) : Prop :=
  f.LiesIn cursor stop ∨ f.fault.severity = .error ∧ f.fault.ofTree = false ∧
    f.span.offset = start ∧ f.span.stop ≤ stop

/-- Faults that lie before all others in a tag come before them. -/
theorem ordered_append {front back : List PlacedFault} {start low middle stop : Nat}
    (hstart : start < low) (hlow : low ≤ middle) (hstop : middle ≤ stop)
    (hfront : ∀ g ∈ front, g.LiesIn low middle) (hfrontOrdered : front.Pairwise Precedes)
    (hback : ∀ f ∈ back, InTag f start middle stop) (hbackOrdered : back.Pairwise Precedes) :
    (∀ f ∈ front ++ back, InTag f start low stop) ∧ (front ++ back).Pairwise Precedes := by
  constructor
  · intro f hf
    rcases List.mem_append.mp hf with hf | hf
    · exact .inl ((hfront f hf).mono (Nat.le_refl _) hstop)
    · exact (hback f hf).imp_left fun h => h.mono hlow (Nat.le_refl _)
  · refine List.pairwise_append.mpr ⟨hfrontOrdered, hbackOrdered, fun g hg f hf => ?_⟩
    rcases hback f hf with hlies | ⟨-, -, hoffset, -⟩
    · exact (hfront g hg).precedes hlies
    · refine precedes_of_span_ne fun hspan => ?_
      have hg := (hfront g hg).start_le
      rw [hspan, hoffset] at hg
      exact Nat.not_le_of_lt hstart hg

/-- The faults of an attribute together with that of a repeated name. -/
theorem ordered_admit? {s : ScannedAttribute} (hs : s.Placed name nameSpan)
    {attributes admitted : List RawAttribute} {duplicate : List PlacedFault}
    (hentry : admit? attributes s.value = (admitted, duplicate)) :
    (∀ f ∈ s.faults ++ duplicate, f.LiesIn nameSpan.offset s.cursor.place.offset) ∧
      (s.faults ++ duplicate).Pairwise Precedes := by
  unfold admit? at hentry
  split at hentry
  · cases hentry
    rw [hs.name_eq, hs.nameSpan_eq]
    constructor
    · intro f hf
      rcases List.mem_append.mp hf with hf | hf
      · exact hs.faults f hf
      · obtain rfl := List.mem_singleton.mp hf
        exact liesIn_of_error rfl rfl (Nat.le_refl _) hs.stop_le
    · refine List.pairwise_append.mpr ⟨hs.ordered, List.pairwise_singleton _ _, fun g hg f hf => ?_⟩
      obtain rfl := List.mem_singleton.mp hf
      exact ⟨nofun, fun hwarning _ hspan => ⟨name, hs.atName g hg hwarning hspan, rfl⟩⟩
  · cases hentry
    rw [List.append_nil]
    exact ⟨hs.faults, hs.ordered⟩

theorem ordered_tagBody {start : Position} (tag : String) (attributes : List RawAttribute)
    (hc : start.offset < cursor.place.offset) :
    (∀ f ∈ (tagBody start tag attributes cursor).faults, InTag f start.offset cursor.place.offset
        (tagBody start tag attributes cursor).cursor.place.offset) ∧
      (tagBody start tag attributes cursor).faults.Pairwise Precedes := by
  fun_induction tagBody start tag attributes cursor with
  | case1 attributes cursor hrest =>
      refine ⟨fun f hf => ?_, List.pairwise_singleton _ _⟩
      obtain rfl := List.mem_singleton.mp hf
      exact .inr ⟨rfl, rfl, rfl, (Position.stop_spanTo (Nat.le_of_lt hc)).le⟩
  | case2 attributes cursor c rest hrest after hblank ih =>
      have hafter := (Cursor.reaches_next hrest).offset_le
      obtain ⟨hfaults, hordered⟩ := ih (Nat.lt_of_lt_of_le hc hafter)
      refine ⟨fun f hf => ?_, hordered⟩
      exact (hfaults f hf).imp_left fun h => h.mono hafter (Nat.le_refl _)
  | case3 => exact ⟨List.forall_mem_nil _, .nil⟩
  | case4 => exact ⟨List.forall_mem_nil _, .nil⟩
  | case5 attributes cursor rest hrest after hblank hgreater hslash ih =>
      have hafter := (Cursor.reaches_next hrest).offset_le
      obtain ⟨hfaults, hordered⟩ := ih (Nat.lt_of_lt_of_le hc hafter)
      refine ordered_append hc hafter (reaches_tagBody ..).offset_le (fun f hf => ?_)
        (List.pairwise_singleton _ _) hfaults hordered
      obtain rfl := List.mem_singleton.mp hf
      exact liesIn_of_error rfl rfl hafter (Nat.le_refl _)
  | case6 attributes cursor rest hrest hblank hgreater hslash hslash' =>
      refine ⟨fun f hf => .inl ?_, List.pairwise_singleton _ _⟩
      obtain rfl := List.mem_singleton.mp hf
      exact liesIn_of_error rfl rfl (Nat.le_refl _) (Nat.le_refl _)
  | case7 attributes cursor c rest hrest hblank hgreater hslash hslash' hless hname scanned
      admitted duplicate hentry hcut =>
      have hscanned := placed_scanAttribute hrest (isNameChar_of_isNameStart hname)
      obtain ⟨hfaults, hordered⟩ := ordered_admit? hscanned hentry
      exact ⟨fun f hf => .inl (hfaults f hf), hordered⟩
  | case8 attributes cursor c rest hrest hblank hgreater hslash hslash' hless hname scanned
      admitted duplicate hentry hcut ih =>
      have hscanned := placed_scanAttribute hrest (isNameChar_of_isNameStart hname)
      obtain ⟨hfaults, hordered⟩ := ordered_admit? hscanned hentry
      have hafter := (reaches_scanAttribute cursor).offset_le
      obtain ⟨hlater, hlaterOrdered⟩ := ih (Nat.lt_of_lt_of_le hc hafter)
      exact ordered_append hc hafter (reaches_tagBody ..).offset_le hfaults hordered hlater
        hlaterOrdered
  | case9 attributes cursor c rest hrest after hblank hgreater hslash hslash' hless hname ih =>
      have hafter := (Cursor.reaches_next hrest).offset_le
      obtain ⟨hfaults, hordered⟩ := ih (Nat.lt_of_lt_of_le hc hafter)
      refine ordered_append hc hafter (reaches_tagBody ..).offset_le (fun f hf => ?_)
        (List.pairwise_singleton _ _) hfaults hordered
      obtain rfl := List.mem_singleton.mp hf
      refine liesIn_of_error rfl rfl (Nat.le_refl _) ?_
      exact (Position.offset_after cursor.place [c]).ge

/-! ### Tokens -/

/-- The faults of a token lie in it and are in order, the warnings behind its first byte; none of
them is where the name in a start tag is. -/
structure Scanned.Placed (s : Scanned) : Prop where
  faults : ∀ f ∈ s.faults, f.LiesIn s.token.span.offset s.token.span.stop
  ordered : s.faults.Pairwise Precedes
  behind : ∀ f ∈ s.faults, f.fault.severity = .warning → s.token.span.offset < f.span.offset
  inside : ∀ n ∈ s.token.kind.nameSpan?, n.Inside s.token.span
  apart : ∀ n ∈ s.token.kind.nameSpan?, ∀ f ∈ s.faults, f.span ≠ n

theorem placed_of_errors {s : Scanned} (hname : s.token.kind.nameSpan? = none)
    (h : ErrorsIn s.faults s.token.span.offset s.token.span.stop) : s.Placed where
  faults := h.liesIn
  ordered := h.ordered
  behind f hf hwarning := absurd hwarning (h.not_warning hf)
  inside n hn := by
    rw [hname] at hn
    cases hn
  apart n hn := by
    rw [hname] at hn
    cases hn

theorem placed_textRun (cursor : Cursor) : (textRun cursor).Placed := by
  have hspan : (textRun cursor).token.span = cursor.place.spanOf (splitText cursor.rest).1 :=
    Position.spanTo_after _ _
  refine placed_of_errors rfl ?_
  rw [hspan]
  exact errorsIn_runFaults true cursor.place (splitText cursor.rest).1

theorem placed_startTag {first c : Char} {rest : List Char}
    (hrest : cursor.rest = first :: c :: rest) (hc : isNameStart c = true) : (startTag cursor).Placed := by
  have hinside : (cursor.advance 1).rest = c :: rest := by
    rw [Cursor.advance, hrest, List.drop_one, List.tail_cons]
  have hstart : cursor.place.offset < (cursor.advance 1).place.offset := by
    rw [Cursor.advance, hrest, Position.offset_after]
    exact Nat.lt_add_of_pos_right (byteLength_pos (List.cons_ne_nil _ _))
  have hpos : 0 < byteLength ((cursor.advance 1).rest.takeWhile isNameChar) := by
    refine byteLength_pos ?_
    rw [hinside, List.takeWhile_cons_of_pos (isNameChar_of_isNameStart hc)]
    exact List.cons_ne_nil _ _
  have hname : ((cursor.advance 1).skip isNameChar).place.offset = (cursor.advance 1).place.offset
      + byteLength ((cursor.advance 1).rest.takeWhile isNameChar) := Position.offset_after _ _
  obtain ⟨hfaults, hordered⟩ := ordered_tagBody
    (String.ofList ((cursor.advance 1).rest.takeWhile isNameChar)) []
    (show cursor.place.offset < ((cursor.advance 1).skip isNameChar).place.offset by omega)
  have hstop := (reaches_tagBody cursor.place
    (String.ofList ((cursor.advance 1).rest.takeWhile isNameChar)) []
    ((cursor.advance 1).skip isNameChar)).offset_le
  have hspan : (startTag cursor).token.span.stop = (startTag cursor).cursor.place.offset :=
    Position.stop_spanTo (reaches_startTag cursor).offset_le
  refine ⟨fun f hf => ?_, hordered, fun f hf hwarning => ?_, fun n hn => ?_, fun n hn f hf => ?_⟩
  · rw [hspan]
    rcases hfaults f hf with hlies | ⟨herror, htree, hoffset, hstop⟩
    · refine hlies.mono ?_ (Nat.le_refl _)
      exact ((cursor.reaches_advance 1).trans (Cursor.reaches_skip _ _)).offset_le
    · exact liesIn_of_error herror htree hoffset.ge hstop
  · rcases hfaults f hf with hlies | ⟨herror, -, -⟩
    · refine Nat.lt_of_lt_of_le ?_ hlies.start_le
      show cursor.place.offset < _
      omega
    · rw [herror] at hwarning
      cases hwarning
  · obtain rfl := Option.some.inj hn
    refine ⟨hstart, hpos, ?_⟩
    rw [hspan]
    exact Nat.le_trans hname.ge hstop
  · obtain rfl := Option.some.inj hn
    intro hsame
    have hoffset : f.span.offset = (cursor.advance 1).place.offset := congrArg Span.offset hsame
    rcases hfaults f hf with hlies | ⟨-, -, hfirst, -⟩
    · have hle := hlies.start_le
      omega
    · omega

theorem errorsIn_endTagJunk (tag : String) {start stop : Nat} (hstart : start ≤ cursor.place.offset)
    (hstop : (cursor.skip fun c => c != '>' && c != '<').place.offset ≤ stop) :
    ErrorsIn (endTagJunk tag cursor) start stop := by
  rw [Cursor.skip, Position.offset_after] at hstop
  unfold endTagJunk
  split
  · exact .nil
  · rename_i c junk hjunk
    rw [hjunk, byteLength_cons] at hstop
    refine .singleton rfl rfl hstart (Nat.le_trans ?_ hstop)
    exact Nat.add_le_add_left (Nat.add_le_add_left (Nat.zero_le _) _) _

theorem placed_endTag (cursor : Cursor) : (endTag cursor).Placed := by
  have hafter := (((cursor.reaches_advance 2).trans (Cursor.reaches_skip isNameChar _)).trans
    (Cursor.reaches_skip isBlank _)).offset_le
  have hend := Nat.le_trans hafter (Cursor.reaches_skip (fun c => c != '>' && c != '<')
    (((cursor.advance 2).skip isNameChar).skip isBlank)).offset_le
  have hclosed := (Cursor.reaches_advance 1
    ((((cursor.advance 2).skip isNameChar).skip isBlank).skip
      fun c => c != '>' && c != '<')).offset_le
  have hspan : (endTag cursor).token.span.offset = cursor.place.offset ∧
      (endTag cursor).token.span.stop = (endTag cursor).cursor.place.offset := by
    rw [span_endTag]
    exact ⟨rfl, Position.stop_spanTo (reaches_endTag cursor).offset_le⟩
  have hfaults : (endTag cursor).token.kind.nameSpan? = none ∧
      ErrorsIn (endTag cursor).faults cursor.place.offset (endTag cursor).cursor.place.offset := by
    simp only [endTag]
    split
    · refine ⟨rfl, ?_⟩
      split
      · refine ((errorsIn_endTagJunk _ hafter (Nat.le_refl _)).append ?_).append ?_
        · exact .singleton rfl rfl (Nat.le_refl _) (Position.stop_spanTo hend).le
        · exact .singleton rfl rfl (Nat.le_refl _) (Position.stop_spanTo hend).le
      · refine ((errorsIn_endTagJunk _ hafter (Nat.le_refl _)).append ?_).append ?_
        · exact .singleton rfl rfl hend (Nat.le_refl _)
        · exact .singleton rfl rfl (Nat.le_refl _) (Position.stop_spanTo hend).le
      · refine ((errorsIn_endTagJunk _ hafter hclosed).append .nil).append ?_
        exact .singleton rfl rfl (Nat.le_refl _)
          (Position.stop_spanTo (Nat.le_trans hend hclosed)).le
    · refine ⟨rfl, ?_⟩
      split
      · refine (errorsIn_endTagJunk _ hafter (Nat.le_refl _)).append ?_
        exact .singleton rfl rfl (Nat.le_refl _) (Position.stop_spanTo hend).le
      · refine (errorsIn_endTagJunk _ hafter (Nat.le_refl _)).append ?_
        exact .singleton rfl rfl hend (Nat.le_refl _)
      · exact (errorsIn_endTagJunk _ hafter hclosed).append .nil
  refine placed_of_errors hfaults.1 ?_
  rw [hspan.1, hspan.2]
  exact hfaults.2

theorem placed_comment (cursor : Cursor) : (comment cursor).Placed := by
  simp only [comment]
  split
  · exact placed_of_errors rfl .nil
  · exact placed_of_errors rfl (.singleton rfl rfl (Nat.le_refl _) (Nat.le_refl _))

theorem placed_declaration (cursor : Cursor) : (declaration cursor).Placed := by
  simp only [declaration]
  split
  · exact placed_of_errors rfl (.singleton rfl rfl (Nat.le_refl _) (Nat.le_refl _))
  · exact placed_of_errors rfl .nil

theorem placed_token (cursor : Cursor) : (token cursor).Placed := by
  unfold token
  split
  · rename_i rest hrest
    split
    · rename_i hstarts
      split
      · exact placed_endTag cursor
      · exact placed_comment cursor
      · exact placed_declaration cursor
      · exact placed_declaration cursor
      · rename_i hslash _ hbang hquestion
        cases rest with
        | nil => cases hstarts
        | cons c rest =>
            refine placed_startTag hrest ?_
            simp only [startsTag, Bool.or_eq_true, beq_iff_eq] at hstarts
            rcases hstarts with ((hname | rfl) | rfl) | rfl
            · exact hname
            · exact absurd rfl (hslash rest)
            · exact absurd rfl (hbang rest)
            · exact absurd rfl (hquestion rest)
    · exact placed_textRun cursor
  · exact placed_textRun cursor

theorem placed_scanAll (cursor : Cursor) : ∀ s ∈ scanAll cursor, s.Placed := by
  fun_induction scanAll cursor with
  | case1 => exact List.forall_mem_nil _
  | case2 cursor hrest scanned ih =>
      intro s hs
      rcases List.mem_cons.mp hs with rfl | hs
      · exact placed_token cursor
      · exact ih s hs

end Scanner

end PatternMarkup
