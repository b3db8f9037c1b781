import Mathlib.Data.List.TakeWhile
import PatternMarkup.Proofs.Markup.Places
/-!
The places of tokens and of the faults found in scanning. A scanner counts along with what it
reads, so every span it makes is one of the source; a name is the text of its span, and so is a
value if and only if no reference in it was replaced.
-/

namespace PatternMarkup

namespace Entity

theorem eq_of_split? {after body rest : List Char} (h : split? after = some (body, rest)) :
    after = body ++ ';' :: rest := by
  have hsplit := List.takeWhile_append_dropWhile (p := isBodyChar) (l := after)
  unfold split? at h
  simp only at h
  split at h
  · cases h
  · split at h
    · rename_i rest' hdrop
      cases h
      rw [hdrop] at hsplit
      exact hsplit.symm
    · cases h

theorem decode_reference {rest body after : List Char} (h : split? rest = some (body, after)) :
    decode ('&' :: rest)
      = (match decode? body with
          | some d => [d]
          | none => written body) ++ decode after := by
  rw [decode, if_pos rfl]
  split
  · rename_i hsplit
    rw [h] at hsplit
    cases hsplit
    rfl
  · rename_i hsplit
    rw [h] at hsplit
    cases hsplit

theorem decode_ampersand {rest : List Char} (h : split? rest = none) :
    decode ('&' :: rest) = '&' :: decode rest := by
  rw [decode, if_pos rfl]
  split
  · rename_i hsplit
    rw [h] at hsplit
    cases hsplit
  · rfl

/-- A text without known references is decoded to itself; with one it gets shorter, as a reference
is longer than the character that it stands for. -/
theorem decode_hasKnown (text : List Char) :
    (decode text).length ≤ text.length ∧
      (hasKnown text = true → (decode text).length < text.length) ∧
      (hasKnown text = false → decode text = text) := by
  fun_induction hasKnown text with
  | case1 => simp [decode]
  | case2 rest body after hsplit ih =>
      obtain ⟨hle, hlt, heq⟩ := ih
      rw [decode_reference hsplit, eq_of_split? hsplit]
      cases hd : decode? body with
      | some d =>
          refine ⟨?_, fun _ => ?_, nofun⟩
          · simp only [List.length_append, List.length_cons, List.length_nil]
            omega
          · simp only [List.length_append, List.length_cons, List.length_nil]
            omega
      | none =>
          refine ⟨?_, fun h => ?_, fun h => ?_⟩
          · simp only [written, List.length_append, List.length_cons, List.length_nil]
            omega
          · have hlt := hlt h
            simp only [written, List.length_append, List.length_cons, List.length_nil]
            omega
          · rw [heq h]
            simp [written]
  | case3 rest hsplit ih =>
      obtain ⟨hle, hlt, heq⟩ := ih
      rw [decode_ampersand hsplit]
      refine ⟨Nat.succ_le_succ hle, fun h => Nat.succ_lt_succ (hlt h), fun h => ?_⟩
      rw [heq h]
  | case4 c rest hc ih =>
      obtain ⟨hle, hlt, heq⟩ := ih
      rw [decode, if_neg hc]
      refine ⟨Nat.succ_le_succ hle, fun h => Nat.succ_lt_succ (hlt h), fun h => ?_⟩
      rw [heq h]

theorem hasKnown_eq_false_iff (text : List Char) : hasKnown text = false ↔ decode text = text := by
  obtain ⟨-, hlt, heq⟩ := decode_hasKnown text
  constructor
  · exact heq
  · intro hsame
    rw [Bool.eq_false_iff]
    intro hknown
    have hshort := hlt hknown
    rw [hsame] at hshort
    exact Nat.lt_irrefl _ hshort

end Entity

/-- An attribute as it stands in the source: its name is the text of its span, and so is its value
exactly if it is verbatim. -/
structure RawAttribute.Faithful (a : RawAttribute) (source : String) : Prop where
  nameSpan : a.nameSpan.Faithful source
  name : a.nameSpan.slice? source = some a.name.toList
  valueSpan : a.valueSpan.Faithful source
  verbatim : a.verbatim = true ↔ a.valueSpan.slice? source = some a.value.toList

/-- The name in a start tag is the text of its span, and the attributes are as they stand. -/
def TokenKind.Faithful (kind : TokenKind) (source : String) : Prop :=
  match kind with
  | .startTag name nameSpan attributes _ =>
      nameSpan.Faithful source ∧ nameSpan.slice? source = some name.toList ∧
        ∀ a ∈ attributes, a.Faithful source
  | _ => True

/-- A token covers source text, and so do the names and values in it. -/
structure Token.Faithful (t : Token) (source : String) : Prop where
  span : t.span.Faithful source
  kind : t.kind.Faithful source

/-- Every fault has its place in the source. -/
def PlacedFault.AllFaithful (faults : List PlacedFault) (source : String) : Prop :=
  ∀ f ∈ faults, f.span.Faithful source

variable {source : String}

namespace PlacedFault.AllFaithful

variable {faults more : List PlacedFault} {f : PlacedFault}

theorem nil : AllFaithful [] source := nofun

theorem cons (hf : f.span.Faithful source) (h : AllFaithful faults source) :
    AllFaithful (f :: faults) source := by
  intro g hg
  rcases List.mem_cons.mp hg with rfl | hg
  · exact hf
  · exact h g hg

theorem singleton (hf : f.span.Faithful source) : AllFaithful [f] source := cons hf nil

theorem append (h : AllFaithful faults source) (hmore : AllFaithful more source) :
    AllFaithful (faults ++ more) source := by
  intro g hg
  rcases List.mem_append.mp hg with hg | hg
  · exact h g hg
  · exact hmore g hg

end PlacedFault.AllFaithful

open PlacedFault (AllFaithful)

namespace RawAttribute

theorem faithful_ofSource {name : String} {nameSpan : Span} {place : Position}
    {written : List Char} (hname : nameSpan.Marks source name.toList)
    (hvalue : (place.spanOf written).Marks source written) :
    (ofSource name nameSpan place written).Faithful source := by
  refine ⟨⟨_, hname⟩, hname.slice, ⟨_, hvalue⟩, ?_⟩
  simp only [ofSource]
  rw [hvalue.slice, String.toList_ofList, Bool.not_eq_true', Entity.hasKnown_eq_false_iff,
    Option.some.injEq, eq_comm]

/-- A name has no line breaks, and each of its characters takes one byte. -/
theorem ascii_of_isNameChar {c : Char} (h : isNameChar c = true) : c ≠ '\n' ∧ c.utf8Size = 1 := by
  have hlow : c.toNat ≤ 127 ∧ 32 < c.toNat := by
    have hcases : (decide (c.val ≥ 'A'.val ∧ c.val ≤ 'Z'.val)
        || decide (c.val ≥ 'a'.val) && decide (c.val ≤ 'z'.val)
        || decide (c.val ≥ '0'.val) && decide (c.val ≤ '9'.val)
        || c == '_' || c == '.' || c == ':' || c == '-') = true := h
    simp only [Bool.or_eq_true, Bool.and_eq_true, decide_eq_true_eq, beq_iff_eq] at hcases
    rcases hcases with (((((h | h) | h) | rfl) | rfl) | rfl) | rfl
    · exact ⟨Nat.le_trans h.2 (by decide), Nat.lt_of_lt_of_le (by decide) h.1⟩
    · exact ⟨Nat.le_trans h.2 (by decide), Nat.lt_of_lt_of_le (by decide) h.1⟩
    · exact ⟨Nat.le_trans h.2 (by decide), Nat.lt_of_lt_of_le (by decide) h.1⟩
    all_goals decide
  constructor
  · rintro rfl
    exact absurd hlow.2 (by decide)
  · exact Char.utf8Size_eq_one_iff.mpr (UInt32.le_iff_toNat_le.mpr hlow.1)

theorem faithful_withoutValue {name : String} {nameSpan : Span}
    (hname : nameSpan.Marks source name.toList) (hchars : ∀ c ∈ name.toList, isNameChar c = true) :
    (withoutValue name nameSpan).Faithful source := by
  have hsize : byteLength name.toList = name.toList.length := by
    generalize name.toList = chars at hchars
    induction chars with
    | nil => rfl
    | cons c chars ih =>
        rw [byteLength_cons, ih fun d hd => hchars d (List.mem_cons_of_mem c hd),
          (ascii_of_isNameChar (hchars c List.mem_cons_self)).2, List.length_cons, Nat.add_comm]
  have hend := hname.atEnd (fun c hc => (ascii_of_isNameChar (hchars c hc)).1) hsize
  refine ⟨⟨_, hname⟩, hname.slice, ⟨_, hend⟩, ?_⟩
  simp only [withoutValue]
  exact iff_of_true trivial hend.slice

end RawAttribute

namespace Scanner

/-! ### Runs of text -/

theorem faithful_runFaults (betweenTags : Bool) {place : Position} {run rest : List Char}
    (h : (Cursor.ofString source).Reaches ⟨place, run ++ rest⟩) :
    AllFaithful (runFaults betweenTags place run) source := by
  fun_induction runFaults betweenTags place run with
  | case1 => exact .nil
  | case2 place run body after hsplit written later hknown ih =>
      have hrun : '&' :: run ++ rest = written ++ (after ++ rest) := by
        rw [Entity.eq_of_split? hsplit]
        simp [written, Entity.written]
      exact ih (h.trans ⟨written, hrun, rfl⟩)
  | case3 place run body after hsplit written later hknown ih =>
      have hrun : '&' :: run ++ rest = written ++ (after ++ rest) := by
        rw [Entity.eq_of_split? hsplit]
        simp [written, Entity.written]
      exact .cons ⟨written, Cursor.marks_spanOf h hrun⟩ (ih (h.trans ⟨written, hrun, rfl⟩))
  | case4 place run hsplit ih =>
      exact .cons ⟨['&'], Cursor.marks_spanOf h rfl⟩ (ih (h.trans (Cursor.reaches_next rfl)))
  | case5 place c run hc hless ih =>
      obtain rfl : c = '<' := by
        simp only [Bool.and_eq_true, decide_eq_true_eq] at hless
        exact hless.1
      exact .cons ⟨['<'], Cursor.marks_spanOf h rfl⟩ (ih (h.trans (Cursor.reaches_next rfl)))
  | case6 place c run hc hless ih => exact ih (h.trans (Cursor.reaches_next rfl))

/-! ### Attributes -/

/-- A scanned attribute stands in the source, and so do its faults. -/
structure ScannedAttribute.Faithful (s : ScannedAttribute) (source : String) : Prop where
  value : s.value.Faithful source
  faults : AllFaithful s.faults source

section

variable {name : String} {nameSpan : Span} {cursor : Cursor}

theorem faithful_withoutValue (hname : nameSpan.Marks source name.toList)
    (hchars : ∀ c ∈ name.toList, isNameChar c = true) (cursor : Cursor) :
    (withoutValue name nameSpan cursor).Faithful source := by
  exact ⟨RawAttribute.faithful_withoutValue hname hchars, .singleton ⟨_, hname⟩⟩

theorem faithful_quotedValue (hname : nameSpan.Marks source name.toList) (quote : Char)
    (hc : (Cursor.ofString source).Reaches cursor) :
    (quotedValue name nameSpan quote cursor).Faithful source := by
  have hsplit := (List.takeWhile_append_dropWhile (p := (· != quote)) (l := cursor.rest)).symm
  have hwritten := Cursor.marks_spanOf hc hsplit
  have hvalue := RawAttribute.faithful_ofSource hname hwritten
  have hfaults := faithful_runFaults false (hc.trans ⟨[], hsplit, rfl⟩)
  unfold quotedValue
  simp only
  split
  · exact ⟨hvalue, hfaults.append (.singleton hvalue.valueSpan)⟩
  · exact ⟨hvalue, hfaults⟩

theorem faithful_unquotedValue (hname : nameSpan.Marks source name.toList)
    (hc : (Cursor.ofString source).Reaches cursor) :
    (unquotedValue name nameSpan cursor).Faithful source := by
  have hsplit := (append_splitUnquoted cursor.rest).symm
  have hwritten := Cursor.marks_spanOf hc hsplit
  have hvalue := RawAttribute.faithful_ofSource hname hwritten
  have hfaults := faithful_runFaults false (hc.trans ⟨[], hsplit, rfl⟩)
  exact ⟨hvalue, hfaults.append (.singleton hvalue.valueSpan)⟩

theorem faithful_valueAfterEquals (hname : nameSpan.Marks source name.toList)
    (hchars : ∀ c ∈ name.toList, isNameChar c = true)
    (hc : (Cursor.ofString source).Reaches cursor) :
    (valueAfterEquals name nameSpan cursor).Faithful source := by
  have hskip := hc.trans (cursor.reaches_skip isBlank)
  have hquote := hskip.trans ((cursor.skip isBlank).reaches_advance 1)
  unfold valueAfterEquals
  simp only
  split
  · exact faithful_withoutValue hname hchars _
  · split
    · exact faithful_quotedValue hname '"' hquote
    · exact faithful_quotedValue hname '\'' hquote
    · exact faithful_unquotedValue hname hskip

theorem faithful_scanAttribute (hc : (Cursor.ofString source).Reaches cursor) :
    (scanAttribute cursor).Faithful source := by
  have hsplit := (List.takeWhile_append_dropWhile (p := isNameChar) (l := cursor.rest)).symm
  have hname : (cursor.place.spanOf (cursor.rest.takeWhile isNameChar)).Marks source
      (String.ofList (cursor.rest.takeWhile isNameChar)).toList := by
    rw [String.toList_ofList]
    exact Cursor.marks_spanOf hc hsplit
  have hchars : ∀ c ∈ (String.ofList (cursor.rest.takeWhile isNameChar)).toList,
      isNameChar c = true := by
    rw [String.toList_ofList]
    exact fun c hmem => List.mem_takeWhile_imp hmem
  have hafter := (hc.trans (cursor.reaches_skip isNameChar)).trans
    ((cursor.skip isNameChar).reaches_skip isBlank)
  unfold scanAttribute
  simp only
  split
  · exact faithful_valueAfterEquals hname hchars (hafter.trans (Cursor.reaches_advance 1 _))
  · exact faithful_withoutValue hname hchars _

/-! ### Tags -/

/-- What stands inside a start tag, and its faults. -/
structure TagBody.Faithful (body : TagBody) (source : String) : Prop where
  attributes : ∀ a ∈ body.attributes, a.Faithful source
  faults : AllFaithful body.faults source

theorem TagBody.Faithful.withFaults {body : TagBody} (h : body.Faithful source)
    {faults : List PlacedFault} (hfaults : AllFaithful faults source) :
    (body.withFaults faults).Faithful source :=
  ⟨h.attributes, hfaults.append h.faults⟩

theorem faithful_admit? {attributes admitted : List RawAttribute} {duplicate : List PlacedFault}
    (hattributes : ∀ a ∈ attributes, a.Faithful source) {s : ScannedAttribute}
    (hs : s.Faithful source) (hentry : admit? attributes s.value = (admitted, duplicate)) :
    (∀ a ∈ admitted, a.Faithful source) ∧ AllFaithful (s.faults ++ duplicate) source := by
  unfold admit? at hentry
  split at hentry
  · cases hentry
    exact ⟨hattributes, hs.faults.append (.singleton hs.value.nameSpan)⟩
  · cases hentry
    refine ⟨fun a ha => ?_, hs.faults.append .nil⟩
    rcases List.mem_append.mp ha with ha | ha
    · exact hattributes a ha
    · obtain rfl := List.mem_singleton.mp ha
      exact hs.value

theorem faithful_tagBody {start : Cursor} (hstart : (Cursor.ofString source).Reaches start)
    (tag : String) {attributes : List RawAttribute}
    (hattributes : ∀ a ∈ attributes, a.Faithful source) (hc : start.Reaches cursor) :
    (tagBody start.place tag attributes cursor).Faithful source := by
  fun_induction tagBody start.place tag attributes cursor with
  | case1 attributes cursor hrest =>
      exact ⟨hattributes, .singleton (Cursor.faithful_spanTo hstart hc)⟩
  | case2 attributes cursor c rest hrest after hblank ih =>
      exact ih hattributes (hc.trans (Cursor.reaches_next hrest))
  | case3 attributes cursor rest hrest after hblank => exact ⟨hattributes, .nil⟩
  | case4 attributes cursor c rest hrest hblank hgreater hslash => exact ⟨hattributes, .nil⟩
  | case5 attributes cursor rest hrest after hblank hgreater hslash ih =>
      have hafter := hc.trans (Cursor.reaches_next hrest)
      exact (ih hattributes hafter).withFaults
        (.singleton (Cursor.faithful_here (hstart.trans hafter)))
  | case6 attributes cursor rest hrest hblank hgreater hslash hslash' =>
      exact ⟨hattributes, .singleton (Cursor.faithful_here (hstart.trans hc))⟩
  | case7 attributes cursor c rest hrest hblank hgreater hslash hslash' hless hname scanned
      admitted duplicate hentry hcut =>
      have hscanned := faithful_scanAttribute (hstart.trans hc)
      obtain ⟨hadmitted, hfaults⟩ := faithful_admit? hattributes hscanned hentry
      exact ⟨hadmitted, hfaults⟩
  | case8 attributes cursor c rest hrest hblank hgreater hslash hslash' hless hname scanned
      admitted duplicate hentry hcut ih =>
      have hscanned := faithful_scanAttribute (hstart.trans hc)
      obtain ⟨hadmitted, hfaults⟩ := faithful_admit? hattributes hscanned hentry
      exact (ih hadmitted (hc.trans (reaches_scanAttribute cursor))).withFaults hfaults
  | case9 attributes cursor c rest hrest after hblank hgreater hslash hslash' hless hname ih =>
      have hfound : (cursor.place.spanOf [c]).Faithful source :=
        ⟨[c], Cursor.marks_spanOf (hstart.trans hc) hrest⟩
      exact (ih hattributes (hc.trans (Cursor.reaches_next hrest))).withFaults (.singleton hfound)

/-! ### Tokens -/

/-- A scanned token stands in the source, and so do its faults. -/
structure Scanned.Faithful (s : Scanned) (source : String) : Prop where
  kind : s.token.kind.Faithful source
  faults : AllFaithful s.faults source

theorem faithful_textRun (hc : (Cursor.ofString source).Reaches cursor) :
    (textRun cursor).Faithful source := by
  have hsplit := (append_splitText cursor.rest).symm
  exact ⟨trivial, faithful_runFaults true (hc.trans ⟨[], hsplit, rfl⟩)⟩

theorem faithful_startTag (hc : (Cursor.ofString source).Reaches cursor) :
    (startTag cursor).Faithful source := by
  have hinside := hc.trans (cursor.reaches_advance 1)
  have hsplit := (List.takeWhile_append_dropWhile (p := isNameChar)
    (l := (cursor.advance 1).rest)).symm
  have hname := Cursor.marks_spanOf hinside hsplit
  have hnone : ∀ a ∈ ([] : List RawAttribute), a.Faithful source := nofun
  have hbody := faithful_tagBody hc
    (String.ofList ((cursor.advance 1).rest.takeWhile isNameChar)) hnone
    ((cursor.reaches_advance 1).trans (Cursor.reaches_skip isNameChar _))
  refine ⟨⟨⟨_, hname⟩, ?_, hbody.attributes⟩, hbody.faults⟩
  rw [String.toList_ofList]
  exact hname.slice

theorem faithful_endTagJunk (hc : (Cursor.ofString source).Reaches cursor) (tag : String) :
    AllFaithful (endTagJunk tag cursor) source := by
  have hsplit := List.takeWhile_append_dropWhile (p := fun c => c != '>' && c != '<')
    (l := cursor.rest)
  unfold endTagJunk
  split
  · exact .nil
  · rename_i c junk hjunk
    rw [hjunk, List.cons_append] at hsplit
    exact .singleton ⟨[c], Cursor.marks_spanOf hc hsplit.symm⟩

theorem faithful_endTag (hc : (Cursor.ofString source).Reaches cursor) :
    (endTag cursor).Faithful source := by
  have hafter := ((cursor.reaches_advance 2).trans (Cursor.reaches_skip isNameChar _)).trans
    (Cursor.reaches_skip isBlank _)
  have hend := hafter.trans (Cursor.reaches_skip (fun c => c != '>' && c != '<') _)
  have hjunk := faithful_endTagJunk (hc.trans hafter)
  have hhere := Cursor.faithful_here (hc.trans hend)
  have hspan := Cursor.faithful_spanTo hc hend
  have hspan' := Cursor.faithful_spanTo hc (hend.trans (Cursor.reaches_advance 1 _))
  simp only [endTag]
  split
  · refine ⟨trivial, ?_⟩
    split
    · exact ((hjunk _).append (.singleton hspan)).append (.singleton hspan)
    · exact ((hjunk _).append (.singleton hhere)).append (.singleton hspan)
    · exact ((hjunk _).append .nil).append (.singleton hspan')
  · refine ⟨trivial, (hjunk _).append ?_⟩
    split
    · exact .singleton hspan
    · exact .singleton hhere
    · exact .nil

theorem faithful_comment (hc : (Cursor.ofString source).Reaches cursor) :
    (comment cursor).Faithful source := by
  simp only [comment]
  split
  · exact ⟨trivial, .nil⟩
  · have hend := (cursor.reaches_advance 4).trans
      ((cursor.advance 4).reaches_advance (cursor.advance 4).rest.length)
    exact ⟨trivial, .singleton (Cursor.faithful_spanTo hc hend)⟩

theorem faithful_declaration (hc : (Cursor.ofString source).Reaches cursor) :
    (declaration cursor).Faithful source := by
  simp only [declaration]
  split
  · have hend := (cursor.reaches_advance 1).trans (Cursor.reaches_skip (· != '>') _)
    exact ⟨trivial, .singleton (Cursor.faithful_spanTo hc hend)⟩
  · exact ⟨trivial, .nil⟩

theorem faithful_token (hc : (Cursor.ofString source).Reaches cursor) :
    (token cursor).Faithful source := by
  unfold token
  split
  · split
    · split
      · exact faithful_endTag hc
      · exact faithful_comment hc
      · exact faithful_declaration hc
      · exact faithful_declaration hc
      · exact faithful_startTag hc
    · exact faithful_textRun hc
  · exact faithful_textRun hc

theorem faithful_scanAll (hc : (Cursor.ofString source).Reaches cursor) :
    ∀ s ∈ scanAll cursor, s.token.Faithful source ∧ AllFaithful s.faults source := by
  fun_induction scanAll cursor with
  | case1 => exact fun s hs => absurd hs List.not_mem_nil
  | case2 cursor hrest scanned ih =>
      have hreaches := reaches_token cursor
      have hscanned := faithful_token hc
      have hspan := Cursor.faithful_spanTo hc hreaches
      rw [← span_token] at hspan
      intro s hs
      rcases List.mem_cons.mp hs with rfl | hs
      · exact ⟨⟨hspan, hscanned.kind⟩, hscanned.faults⟩
      · exact ih (hc.trans hreaches) s hs

end

end Scanner

namespace TokenStream

/-- The tokens of a source and the faults found in scanning it stand where their spans say. -/
structure Faithful (stream : TokenStream) (source : String) : Prop where
  tokens : ∀ t ∈ stream.tokens, t.Faithful source
  faults : AllFaithful stream.faults source

theorem faithful_ofSource (source : String) : (ofSource source).Faithful source := by
  have hall := Scanner.faithful_scanAll (Cursor.Reaches.refl (Cursor.ofString source))
  constructor
  · intro t ht
    obtain ⟨s, hs, rfl⟩ := List.mem_map.mp ht
    exact (hall s hs).1
  · intro f hf
    obtain ⟨s, hs, hf⟩ := List.mem_flatMap.mp hf
    exact (hall s hs).2 f hf

end TokenStream

end PatternMarkup
