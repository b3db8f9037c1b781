import Mathlib.Data.List.Induction
import PatternMarkup.Proofs.Markup.Tiling
/-!
Where a piece of a text stands. The line and the column of a place are those that the text before
it gives, however the place was found: by a cursor that counts along, by narrowing the span of a
text around it, or from the end of a name.
-/

namespace PatternMarkup

/-- The line, from one, of the place after some text. -/
def lineAfter (before : List Char) : Nat := before.count '\n' + 1

/-- The column, from one, of the place after some text, in characters. -/
def columnAfter (before : List Char) : Nat := (before.reverse.takeWhile (· != '\n')).length + 1

namespace Span

/-- The span of `piece` where it stands right after `before`. -/
def ofPiece (before piece : List Char) : Span :=
  ⟨byteLength before, lineAfter before, columnAfter before, byteLength piece⟩

/-- The span is that of `piece` at some place in the source. -/
def Marks (span : Span) (source : String) (piece : List Char) : Prop :=
  ∃ before after, source.toList = before ++ (piece ++ after) ∧ span = ofPiece before piece

/-- The span starts and ends between characters of the source, and its line and column are those
of its start. -/
def Faithful (span : Span) (source : String) : Prop := ∃ piece, span.Marks source piece

/-- The source text of a span. -/
def slice? (span : Span) (source : String) : Option (List Char) :=
  sliceBytes? source.toList span.range

end Span

/-! ### Counting along -/

theorem lineAfter_append_of_forall {front piece : List Char} (h : ∀ c ∈ piece, c ≠ '\n') :
    lineAfter (front ++ piece) = lineAfter front := by
  have hnone : piece.count '\n' = 0 := List.count_eq_zero.mpr fun hmem => h '\n' hmem rfl
  rw [lineAfter, List.count_append, hnone, Nat.add_zero, lineAfter]

theorem columnAfter_append_of_forall {front piece : List Char} (h : ∀ c ∈ piece, c ≠ '\n') :
    columnAfter (front ++ piece) = columnAfter front + piece.length := by
  have hall : ∀ c ∈ piece.reverse, (c != '\n') = true := fun c hc =>
    bne_iff_ne.mpr (h c (List.mem_reverse.mp hc))
  rw [columnAfter, List.reverse_append, List.takeWhile_append_of_pos hall, List.length_append,
    List.length_reverse, columnAfter]
  omega

/-- A cursor that counts bytes, lines and columns along has those of the text it went over. -/
theorem Position.start_after (before : List Char) :
    Position.start.after before = ⟨byteLength before, lineAfter before, columnAfter before⟩ := by
  induction before using List.reverseRecOn with
  | nil => rfl
  | append_singleton front c ih =>
      rw [after_append, ih, after_cons, after_nil, next, byteLength_append]
      by_cases hc : c = '\n'
      · subst hc
        rw [if_pos rfl]
        simp [lineAfter, columnAfter]
      · have hother : ∀ d ∈ [c], d ≠ '\n' := by simpa using hc
        rw [if_neg hc, lineAfter_append_of_forall hother, columnAfter_append_of_forall hother]
        rfl

example : Position.start.after ['a', '\n', 'é'] = ⟨4, 2, 2⟩ := by decide

/-! ### Spans of pieces -/

namespace Span

theorem position_ofPiece (before piece : List Char) :
    (ofPiece before piece).position = Position.start.after before :=
  (Position.start_after before).symm

/-- The bytes of a span that marks a piece are that piece. -/
theorem Marks.slice {span : Span} {source : String} {piece : List Char}
    (h : span.Marks source piece) : span.slice? source = some piece := by
  obtain ⟨before, after, hsource, rfl⟩ := h
  rw [slice?, hsource]
  exact sliceBytes?_append before piece after

theorem Faithful.marks {span : Span} {source : String} {piece : List Char}
    (h : span.Faithful source) (hslice : span.slice? source = some piece) :
    span.Marks source piece := by
  obtain ⟨piece', hmarks⟩ := h
  obtain rfl : piece' = piece := Option.some.inj (hmarks.slice.symm.trans hslice)
  exact hmarks

theorem faithful_origin (source : String) : origin.Faithful source :=
  ⟨[], [], source.toList, rfl, rfl⟩

/-- The place after a piece that lies on one line and takes one byte for each character. -/
theorem Marks.atEnd {span : Span} {source : String} {piece : List Char}
    (h : span.Marks source piece) (hline : ∀ c ∈ piece, c ≠ '\n')
    (hsize : byteLength piece = piece.length) : span.atEnd.Marks source [] := by
  obtain ⟨before, after, hsource, rfl⟩ := h
  refine ⟨before ++ piece, after, by rw [hsource, List.append_assoc, List.nil_append], ?_⟩
  simp only [Span.atEnd, stop, ofPiece, byteLength_append, byteLength_nil,
    lineAfter_append_of_forall hline, columnAfter_append_of_forall hline, hsize]

end Span

/-- A range of whole characters lies where the characters before it end. -/
theorem exists_append_of_sliceBytes? {text piece : List Char} {range : ByteRange}
    (h : sliceBytes? text range = some piece) :
    ∃ front back, text = front ++ (piece ++ back) ∧ byteLength front = range.start ∧
      byteLength piece = range.stop - range.start := by
  rw [sliceBytes?, Option.bind_eq_bind, Option.bind_eq_some_iff] at h
  obtain ⟨⟨front, rest⟩, hfront, h⟩ := h
  obtain ⟨⟨piece', back⟩, hpiece, h⟩ := Option.bind_eq_some_iff.mp h
  cases h
  obtain ⟨rfl, hstart⟩ := eq_append_of_splitBytes? hfront
  obtain ⟨rfl, hlength⟩ := eq_append_of_splitBytes? hpiece
  exact ⟨front, back, rfl, hstart, hlength⟩

/-- Narrowing starts after the front of a text that ends where the range starts. -/
theorem Span.narrow_ofPiece (before : List Char) {text : String} {front back : List Char}
    (htext : text.toList = front ++ back) {range : ByteRange}
    (hstart : min range.start text.utf8ByteSize = byteLength front) :
    (ofPiece before text.toList).narrow text range =
      ⟨byteLength (before ++ front), lineAfter (before ++ front), columnAfter (before ++ front),
        max (byteLength front) (min range.stop text.utf8ByteSize) - byteLength front⟩ := by
  rw [Span.narrow]
  simp only [hstart]
  rw [htext, splitBytes?_append]
  simp only [position_ofPiece]
  rw [← Position.after_append, Position.start_after]
  simp only [ofPiece, byteLength_append]

/-- Narrowing the span of a text to a range of whole characters gives the place of what the range
holds. -/
theorem Span.Marks.narrow {span : Span} {source text : String}
    (h : span.Marks source text.toList) {range : ByteRange} {piece : List Char}
    (hpiece : sliceBytes? text.toList range = some piece) :
    (span.narrow text range).Marks source piece ∧
      (span.narrow text range).offset = span.offset + range.start := by
  obtain ⟨before, after, hsource, rfl⟩ := h
  obtain ⟨front, back, htext, hstart, hlength⟩ := exists_append_of_sliceBytes? hpiece
  have hsize : text.utf8ByteSize = range.start + (byteLength piece + byteLength back) := by
    rw [← byteLength_toList, htext, byteLength_append, byteLength_append, hstart]
  have hmin : min range.start text.utf8ByteSize = range.start := by omega
  have hstop : max range.start (min range.stop text.utf8ByteSize) - range.start
      = byteLength piece := by omega
  have hnarrow : (ofPiece before text.toList).narrow text range
      = ofPiece (before ++ front) piece := by
    rw [narrow_ofPiece before htext (hmin.trans hstart.symm), hstart, hstop, ofPiece]
  rw [hnarrow]
  refine ⟨⟨before ++ front, back ++ after, ?_, rfl⟩, ?_⟩
  · rw [hsource, htext]
    simp only [List.append_assoc]
  · simp only [ofPiece, byteLength_append, hstart]

/-! ### Spans between places -/

/-- Of two fronts of a text the one with no more bytes is a front of the other. -/
theorem exists_append_of_byteLength_le {front back front' back' : List Char}
    (h : front ++ back = front' ++ back') (hle : byteLength front ≤ byteLength front') :
    ∃ piece, front' = front ++ piece ∧ back = piece ++ back' := by
  rcases List.append_eq_append_iff.mp h with ⟨piece, hfront, hback⟩ | ⟨piece, hfront, hback⟩
  · exact ⟨piece, hfront, hback⟩
  · have hnil : piece = [] := by
      have hlength := congrArg byteLength hfront
      rw [byteLength_append] at hlength
      cases piece with
      | nil => rfl
      | cons c rest =>
          have hpos := c.utf8Size_pos
          rw [byteLength_cons] at hlength
          omega
    subst hnil
    rw [List.append_nil] at hfront
    rw [List.nil_append] at hback
    exact ⟨[], by rw [hfront, List.append_nil], by rw [hback, List.nil_append]⟩

namespace Span

variable {source : String} {s t : Span}

/-- The span from one place of a source to a later one. -/
theorem faithful_between {before after before' after' : List Char}
    (h : source.toList = before ++ after) (h' : source.toList = before' ++ after')
    (hle : byteLength before ≤ byteLength before') :
    Faithful ⟨byteLength before, lineAfter before, columnAfter before,
      byteLength before' - byteLength before⟩ source := by
  obtain ⟨piece, rfl, rfl⟩ := exists_append_of_byteLength_le (h.symm.trans h') hle
  refine ⟨piece, before, after', h, ?_⟩
  rw [byteLength_append, Nat.add_sub_cancel_left, ofPiece]

/-- Two spans of a source lie in one. -/
theorem Faithful.join (hs : s.Faithful source) (ht : t.Faithful source) :
    (s.join t).Faithful source := by
  obtain ⟨piece, before, after, hsource, rfl⟩ := hs
  obtain ⟨piece', before', after', hsource', rfl⟩ := ht
  -- The span ends where the one that ends later does.
  have hstop : ∃ front back, source.toList = front ++ back ∧
      byteLength front = max (ofPiece before piece).stop (ofPiece before' piece').stop := by
    rcases Nat.le_total (ofPiece before piece).stop (ofPiece before' piece').stop with hle | hle
    · refine ⟨before' ++ piece', after', by rw [hsource', List.append_assoc], ?_⟩
      rw [Nat.max_eq_right hle, byteLength_append]
      rfl
    · refine ⟨before ++ piece, after, by rw [hsource, List.append_assoc], ?_⟩
      rw [Nat.max_eq_left hle, byteLength_append]
      rfl
  obtain ⟨front, back, hfront, hlength⟩ := hstop
  rw [Span.join, ← hlength, ofPiece, ofPiece]
  have hleft : byteLength before ≤ byteLength front := by
    rw [hlength]
    exact Nat.le_trans (Nat.le_add_right _ _) (Nat.le_max_left _ _)
  have hright : byteLength before' ≤ byteLength front := by
    rw [hlength]
    exact Nat.le_trans (Nat.le_add_right _ _) (Nat.le_max_right _ _)
  simp only
  split
  · exact faithful_between hsource hfront hleft
  · exact faithful_between hsource' hfront hright

/-- The span is that of the first of several bytes of a character. -/
def CutsCharacter (span : Span) (source : String) : Prop :=
  ∃ before c after, source.toList = before ++ c :: after ∧ 1 < c.utf8Size ∧
    span = ⟨byteLength before, lineAfter before, columnAfter before, 1⟩

/-- Where such a span ends there is no place between two characters. -/
theorem CutsCharacter.not_faithful (h : s.CutsCharacter source) : ¬ s.Faithful source := by
  rintro ⟨piece, before', after', hsource', hspan⟩
  obtain ⟨before, c, after, hsource, hsize, rfl⟩ := h
  have hbefore : byteLength before = byteLength before' := congrArg Span.offset hspan
  have hpiece : 1 = byteLength piece := congrArg Span.length hspan
  obtain ⟨front, rfl, hafter⟩ := exists_append_of_byteLength_le (hsource.symm.trans hsource')
    (Nat.le_of_eq hbefore)
  have hlength : byteLength (front ++ piece) = 1 := by
    rw [byteLength_append] at hbefore ⊢
    omega
  rw [← List.append_assoc] at hafter
  generalize front ++ piece = whole at hafter hlength
  cases whole with
  | nil => cases hlength
  | cons d rest =>
      obtain ⟨rfl, -⟩ := List.cons.inj hafter
      rw [byteLength_cons] at hlength
      omega

/-- The span of one byte of a text is empty, that of a character or of the whole text, or the byte
is the first of several of a character. -/
theorem Marks.narrow_byte {text : String} (h : s.Marks source text.toList) (offset : Nat) :
    (s.narrow text ⟨offset, offset + 1⟩).Faithful source ∨
      (s.narrow text ⟨offset, offset + 1⟩).CutsCharacter source := by
  obtain ⟨before, after, hsource, rfl⟩ := h
  cases hsplit : splitBytes? (min offset text.utf8ByteSize) text.toList with
  | none =>
      have hwhole : (ofPiece before text.toList).narrow text ⟨offset, offset + 1⟩ =
          ofPiece before text.toList := by
        rw [Span.narrow]
        simp only [hsplit]
      rw [hwhole]
      exact .inl ⟨text.toList, before, after, hsource, rfl⟩
  | some parts =>
      obtain ⟨front, back⟩ := parts
      obtain ⟨htext, hfront⟩ := eq_append_of_splitBytes? hsplit
      have hsize := byteLength_toList text
      rw [htext, byteLength_append] at hsize
      rw [narrow_ofPiece before htext hfront.symm]
      have hplace : ∀ piece rest, back = piece ++ rest →
          source.toList = (before ++ front) ++ (piece ++ (rest ++ after)) := by
        intro piece rest hback
        rw [hsource, htext, hback]
        simp only [List.append_assoc]
      cases back with
      | nil =>
          refine .inl ⟨[], before ++ front, [] ++ after, hplace [] [] rfl, ?_⟩
          rw [byteLength_nil] at hsize
          have hlength : max (byteLength front) (min (offset + 1) text.utf8ByteSize) -
              byteLength front = byteLength [] := by
            rw [byteLength_nil]
            omega
          rw [hlength]
          rfl
      | cons c rest =>
          have hpos := c.utf8Size_pos
          rw [byteLength_cons] at hsize
          have hlength : max (byteLength front) (min (offset + 1) text.utf8ByteSize) -
              byteLength front = 1 := by omega
          rw [hlength]
          rcases Nat.eq_or_lt_of_le hpos with hone | hmore
          · refine .inl ⟨[c], before ++ front, rest ++ after, hplace [c] rest rfl, ?_⟩
            rw [ofPiece, byteLength_cons, ← hone]
            rfl
          · exact .inr ⟨before ++ front, c, rest ++ after, hplace [c] rest rfl, hmore, rfl⟩

end Span

/-! ### Spans at cursors -/

namespace Cursor

variable {source : String} {c d : Cursor}

/-- What follows a cursor of the source stands where the cursor says. -/
theorem marks_spanOf (hc : (ofString source).Reaches c) {piece rest : List Char}
    (hrest : c.rest = piece ++ rest) : (c.place.spanOf piece).Marks source piece := by
  obtain ⟨before, hsource, hplace⟩ := hc
  refine ⟨before, rest, by rw [← hrest]; exact hsource, ?_⟩
  rw [hplace, ofString, Position.start_after]
  rfl

theorem faithful_spanTo (hc : (ofString source).Reaches c) (hd : c.Reaches d) :
    (c.place.spanTo d.place).Faithful source := by
  obtain ⟨piece, hrest, hplace⟩ := hd
  rw [hplace, Position.spanTo_after]
  exact ⟨piece, marks_spanOf hc hrest⟩

theorem faithful_here (hc : (ofString source).Reaches c) : c.place.here.Faithful source :=
  ⟨[], marks_spanOf hc (List.nil_append _).symm⟩

end Cursor

end PatternMarkup
