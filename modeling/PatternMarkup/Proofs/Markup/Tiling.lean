import PatternMarkup.Markup.Scanner
/-!
Nothing is lost in scanning. Every state of the scanner hands over a cursor that stands later in
the same text, so the tokens cut the text into pieces, one piece after another, none of them
empty.
-/

namespace PatternMarkup

namespace Position

theorem spanTo_after (p : Position) (text : List Char) :
    p.spanTo (p.after text) = p.spanOf text := by
  simp [spanTo, spanOf, offset_after]

end Position

namespace Cursor

/-- The second cursor stands in the same text as the first one, there or later. -/
def Reaches (c d : Cursor) : Prop :=
  ∃ text, c.rest = text ++ d.rest ∧ d.place = c.place.after text

theorem Reaches.refl (c : Cursor) : c.Reaches c := ⟨[], rfl, rfl⟩

theorem Reaches.trans {c d e : Cursor} (hcd : c.Reaches d) (hde : d.Reaches e) :
    c.Reaches e := by
  obtain ⟨first, hfirst, hplace⟩ := hcd
  obtain ⟨second, hsecond, hplace'⟩ := hde
  refine ⟨first ++ second, ?_, ?_⟩
  · rw [hfirst, hsecond, List.append_assoc]
  · rw [hplace', hplace, Position.after_append]

theorem reaches_skip (keep : Char → Bool) (c : Cursor) : c.Reaches (c.skip keep) :=
  ⟨c.rest.takeWhile keep, List.takeWhile_append_dropWhile.symm, rfl⟩

theorem reaches_advance (count : Nat) (c : Cursor) : c.Reaches (c.advance count) :=
  ⟨c.rest.take count, (List.take_append_drop count c.rest).symm, rfl⟩

theorem reaches_next {cursor : Cursor} {c : Char} {rest : List Char}
    (hrest : cursor.rest = c :: rest) : cursor.Reaches ⟨cursor.place.next c, rest⟩ :=
  ⟨[c], hrest, rfl⟩

theorem reaches_after {cursor : Cursor} {text rest : List Char}
    (hrest : text ++ rest = cursor.rest) : cursor.Reaches ⟨cursor.place.after text, rest⟩ :=
  ⟨text, hrest.symm, rfl⟩

end Cursor

namespace Scanner

/-! ### Attributes and tags -/

theorem append_splitUnquoted (text : List Char) :
    (splitUnquoted text).1 ++ (splitUnquoted text).2 = text := by
  induction text with
  | nil => rfl
  | cons c rest ih =>
      unfold splitUnquoted
      split
      · simp [ih]
      · rfl

theorem reaches_quotedValue (name : String) (nameSpan : Span) (quote : Char) (cursor : Cursor) :
    cursor.Reaches (quotedValue name nameSpan quote cursor).cursor := by
  have hsplit := List.takeWhile_append_dropWhile (p := (· != quote)) (l := cursor.rest)
  unfold quotedValue
  split
  · rename_i hdrop
    rw [hdrop] at hsplit
    exact Cursor.reaches_after hsplit
  · rename_i c after hdrop
    rw [hdrop] at hsplit
    exact (Cursor.reaches_after hsplit).trans (Cursor.reaches_next rfl)

theorem reaches_valueAfterEquals (name : String) (nameSpan : Span) (cursor : Cursor) :
    cursor.Reaches (valueAfterEquals name nameSpan cursor).cursor := by
  have hskip := cursor.reaches_skip isBlank
  have hquote := hskip.trans ((cursor.skip isBlank).reaches_advance 1)
  unfold valueAfterEquals
  simp only
  split
  · exact hskip
  · split
    · exact hquote.trans (reaches_quotedValue ..)
    · exact hquote.trans (reaches_quotedValue ..)
    · exact hskip.trans (Cursor.reaches_after (append_splitUnquoted _))

theorem reaches_scanAttribute (cursor : Cursor) :
    cursor.Reaches (scanAttribute cursor).cursor := by
  have hname := (cursor.reaches_skip isNameChar).trans
    ((cursor.skip isNameChar).reaches_skip isBlank)
  unfold scanAttribute
  simp only
  split
  · exact (hname.trans (Cursor.reaches_advance 1 _)).trans (reaches_valueAfterEquals ..)
  · exact hname

theorem reaches_tagBody (start : Position) (name : String) (attributes : List RawAttribute)
    (cursor : Cursor) : cursor.Reaches (tagBody start name attributes cursor).cursor := by
  fun_induction tagBody start name attributes cursor with
  | case1 => exact .refl _
  | case2 _ _ _ _ hrest _ _ ih => exact (Cursor.reaches_next hrest).trans ih
  | case3 _ _ _ hrest => exact Cursor.reaches_next hrest
  | case4 _ cursor => exact cursor.reaches_advance 2
  | case5 _ _ _ hrest _ _ _ _ ih => exact (Cursor.reaches_next hrest).trans ih
  | case6 => exact .refl _
  | case7 _ cursor => exact reaches_scanAttribute cursor
  | case8 _ cursor => exact (reaches_scanAttribute cursor).trans (by assumption)
  | case9 _ _ _ _ hrest => exact (Cursor.reaches_next hrest).trans (by assumption)

/-! ### Tokens -/

theorem reaches_textRun (cursor : Cursor) : cursor.Reaches (textRun cursor).cursor :=
  Cursor.reaches_after (append_splitText _)

theorem reaches_startTag (cursor : Cursor) : cursor.Reaches (startTag cursor).cursor :=
  ((cursor.reaches_advance 1).trans (Cursor.reaches_skip _ _)).trans (reaches_tagBody ..)

theorem reaches_endTag (cursor : Cursor) : cursor.Reaches (endTag cursor).cursor := by
  have hend := (((cursor.reaches_advance 2).trans (Cursor.reaches_skip isNameChar _)).trans
    (Cursor.reaches_skip isBlank _)).trans
      (Cursor.reaches_skip (fun c => c != '>' && c != '<') _)
  simp only [endTag]
  split <;> split <;> simp only [Scanned.upTo]
  all_goals first
    | exact hend
    | exact hend.trans (Cursor.reaches_advance 1 _)

theorem reaches_comment (cursor : Cursor) : cursor.Reaches (comment cursor).cursor := by
  simp only [comment]
  split <;> exact (cursor.reaches_advance 4).trans (Cursor.reaches_advance _ _)

theorem reaches_declaration (cursor : Cursor) : cursor.Reaches (declaration cursor).cursor := by
  have hend := (cursor.reaches_advance 1).trans (Cursor.reaches_skip (· != '>') _)
  simp only [declaration]
  split
  · exact hend
  · exact hend.trans (Cursor.reaches_advance 1 _)

theorem reaches_token (cursor : Cursor) : cursor.Reaches (token cursor).cursor := by
  unfold token
  split
  · split
    · split
      · exact reaches_endTag cursor
      · exact reaches_comment cursor
      · exact reaches_declaration cursor
      · exact reaches_declaration cursor
      · exact reaches_startTag cursor
    · exact reaches_textRun cursor
  · exact reaches_textRun cursor

theorem span_endTag (cursor : Cursor) :
    (endTag cursor).token.span = cursor.place.spanTo (endTag cursor).cursor.place := by
  simp only [endTag]
  split <;> split <;> rfl

theorem span_comment (cursor : Cursor) :
    (comment cursor).token.span = cursor.place.spanTo (comment cursor).cursor.place := by
  simp only [comment]
  split <;> rfl

theorem span_declaration (cursor : Cursor) :
    (declaration cursor).token.span = cursor.place.spanTo (declaration cursor).cursor.place := by
  simp only [declaration]
  split <;> rfl

/-- A token covers the source from the cursor it was read at to the cursor after it. -/
theorem span_token (cursor : Cursor) :
    (token cursor).token.span = cursor.place.spanTo (token cursor).cursor.place := by
  unfold token
  split
  · split
    · split
      · exact span_endTag cursor
      · exact span_comment cursor
      · exact span_declaration cursor
      · exact span_declaration cursor
      · rfl
    · rfl
  · rfl

/-- The characters of a token: it has at least one, and the rest of the text follows them. -/
theorem exists_token_piece {cursor : Cursor} (hrest : cursor.rest ≠ []) :
    ∃ piece, piece ≠ [] ∧ cursor.rest = piece ++ (token cursor).cursor.rest ∧
      (token cursor).token.span = cursor.place.spanOf piece ∧
      (token cursor).cursor.place = cursor.place.after piece := by
  obtain ⟨piece, hpiece, hplace⟩ := reaches_token cursor
  refine ⟨piece, ?_, hpiece, ?_, hplace⟩
  · rintro rfl
    have hlt := length_token_lt hrest
    rw [hpiece] at hlt
    exact absurd hlt (Nat.lt_irrefl _)
  · rw [span_token, hplace, Position.spanTo_after]

end Scanner

/-! ### Bytes -/

theorem byteLength_pos {text : List Char} (h : text ≠ []) : 0 < byteLength text := by
  cases text with
  | nil => exact absurd rfl h
  | cons c rest => exact Nat.add_pos_left c.utf8Size_pos _

/-- A text can be cut where one of its parts ends. -/
theorem splitBytes?_append (front back : List Char) :
    splitBytes? (byteLength front) (front ++ back) = some (front, back) := by
  induction front with
  | nil => cases back <;> simp [splitBytes?]
  | cons c rest ih =>
      have hsize := c.utf8Size_pos
      rw [List.cons_append, byteLength_cons, splitBytes?, if_neg (by omega), if_neg (by omega),
        Nat.add_sub_cancel_left, ih]
      rfl

/-- The bytes of a part of a text are that part. -/
theorem sliceBytes?_append (before piece rest : List Char) :
    sliceBytes? (before ++ (piece ++ rest))
      ⟨byteLength before, byteLength before + byteLength piece⟩ = some piece := by
  simp [sliceBytes?, splitBytes?_append]

/-! ### Tilings -/

/-- The spans, read from `place` on, are those of the pieces the text is cut into. -/
def Cuts (place : Position) : List Span → List Char → Prop
  | [], text => text = []
  | span :: later, text =>
      ∃ piece rest, piece ≠ [] ∧ text = piece ++ rest ∧ span = place.spanOf piece ∧
        Cuts (place.after piece) later rest

/-- The spans are non-empty, each starts where the one before it ends, and together they lead
from the byte `start` to the byte `stop`. -/
def Tiles (start stop : Nat) : List Span → Prop
  | [] => start = stop
  | span :: later => span.offset = start ∧ 0 < span.length ∧ Tiles span.stop stop later

theorem Cuts.tiles {place : Position} {spans : List Span} {text : List Char}
    (h : Cuts place spans text) :
    Tiles place.offset (place.offset + byteLength text) spans := by
  induction spans generalizing place text with
  | nil =>
      rw [show text = [] from h]
      rfl
  | cons span later ih =>
      obtain ⟨piece, rest, hpiece, rfl, rfl, hlater⟩ := h
      have hrest := ih hlater
      rw [Position.offset_after, Nat.add_assoc, ← byteLength_append] at hrest
      exact ⟨rfl, byteLength_pos hpiece, hrest⟩

theorem Scanner.cuts_scanAll (cursor : Cursor) :
    Cuts cursor.place ((scanAll cursor).map (·.token.span)) cursor.rest := by
  fun_induction scanAll cursor with
  | case1 cursor hrest => exact hrest
  | case2 cursor hrest scanned ih =>
      obtain ⟨piece, hpiece, htext, hspan, hplace⟩ := exists_token_piece hrest
      rw [hplace] at ih
      exact ⟨piece, _, hpiece, htext, hspan, ih⟩

namespace TokenStream

/-- The places of the tokens. -/
def spans (stream : TokenStream) : List Span := stream.tokens.map (·.span)

theorem cuts_ofSource (source : String) :
    Cuts Position.start (ofSource source).spans source.toList := by
  rw [spans, ofSource, List.map_map]
  exact Scanner.cuts_scanAll (Cursor.ofString source)

/-- The tokens of a text tile it from its first byte to its last. -/
theorem tiles_ofSource (source : String) :
    Tiles 0 source.utf8ByteSize (ofSource source).spans := by
  have htiles := (cuts_ofSource source).tiles
  rwa [byteLength_toList, show Position.start.offset = 0 from rfl, Nat.zero_add] at htiles

end TokenStream

end PatternMarkup
