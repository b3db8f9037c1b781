import PatternMarkup.Markup.Token
/-!
Cutting a markup text into tokens. Scanning never fails: every fault is listed beside the
tokens, and the tokens cover the text from its first character to its last.
-/

namespace PatternMarkup

/-- A place in the source together with the text after it. -/
structure Cursor where
  place : Position
  rest : List Char
deriving Repr, Inhabited

namespace Cursor

/-- The start of a text. -/
def ofString (source : String) : Cursor := ⟨Position.start, source.toList⟩

/-- The cursor after the characters in front that satisfy `keep`. -/
def skip (keep : Char → Bool) (c : Cursor) : Cursor :=
  ⟨c.place.after (c.rest.takeWhile keep), c.rest.dropWhile keep⟩

/-- The cursor after `count` characters. -/
def advance (count : Nat) (c : Cursor) : Cursor :=
  ⟨c.place.after (c.rest.take count), c.rest.drop count⟩

theorem length_skip_le (keep : Char → Bool) (c : Cursor) :
    (c.skip keep).rest.length ≤ c.rest.length :=
  (List.dropWhile_sublist keep (l := c.rest)).length_le

theorem length_advance_le (count : Nat) (c : Cursor) :
    (c.advance count).rest.length ≤ c.rest.length := by
  simp [advance]

end Cursor

namespace Scanner

/-! ### Character references -/

/-- The faults of a run of text, in order: references that are unknown or broken off and, in
text between tags, every `<`. -/
def runFaults (betweenTags : Bool) (place : Position) (run : List Char) : List PlacedFault :=
  match run with
  | [] => []
  | c :: rest =>
      if c = '&' then
        match _h : Entity.split? rest with
        | some (body, after) =>
            let written := Entity.written body
            let later := runFaults betweenTags (place.after written) after
            if (Entity.decode? body).isSome then later
            else ⟨.unknownEntity (String.ofList written), place.spanOf written⟩ :: later
        | none =>
            ⟨.unterminatedEntity, place.spanOf ['&']⟩ :: runFaults betweenTags (place.next c) rest
      else if c = '<' && betweenTags then
        ⟨.strayLessThan, place.spanOf ['<']⟩ :: runFaults betweenTags (place.next c) rest
      else runFaults betweenTags (place.next c) rest
termination_by run.length
decreasing_by
  · have := Entity.length_lt_of_split? _h; simp only [List.length_cons]; omega
  all_goals simp

/-! ### Text -/

/-- The characters up to the next tag, and what follows them. -/
def splitText : List Char → List Char × List Char
  | [] => ([], [])
  | c :: rest =>
      if c = '<' && startsTag rest then ([], c :: rest)
      else
        let (run, after) := splitText rest
        (c :: run, after)

theorem append_splitText (text : List Char) :
    (splitText text).1 ++ (splitText text).2 = text := by
  induction text with
  | nil => rfl
  | cons c rest ih =>
      unfold splitText
      split
      · rfl
      · simp [ih]

/-! ### Attributes -/

/-- An attribute, its faults, and the cursor after it. -/
structure ScannedAttribute where
  value : RawAttribute
  faults : List PlacedFault
  cursor : Cursor
  /-- Whether the text ends inside the attribute's value. -/
  cutOff : Bool

/-- Whether a value without quotes goes on with this text. -/
def continuesValue : List Char → Bool
  | [] => false
  | '>' :: _ => false
  | '<' :: _ => false
  | '/' :: '>' :: _ => false
  | c :: _ => !isBlank c

/-- The characters of a value without quotes, and what follows them. -/
def splitUnquoted : List Char → List Char × List Char
  | [] => ([], [])
  | c :: rest =>
      if continuesValue (c :: rest) then
        let (value, after) := splitUnquoted rest
        (c :: value, after)
      else ([], c :: rest)

theorem length_splitUnquoted_le (text : List Char) :
    (splitUnquoted text).2.length ≤ text.length := by
  induction text with
  | nil => simp [splitUnquoted]
  | cons c rest ih =>
      unfold splitUnquoted
      split
      · simp only [List.length_cons]; omega
      · simp

/-- Whether an attribute that is followed by `=` and this text has no value after all. -/
def lacksValue : List Char → Bool
  | [] => true
  | '>' :: _ => true
  | '<' :: _ => true
  | '/' :: '>' :: _ => true
  | _ => false

/-- An attribute without a value; the cursor stands where the value was looked for. -/
def withoutValue (name : String) (nameSpan : Span) (cursor : Cursor) : ScannedAttribute :=
  ⟨.withoutValue name nameSpan, [⟨.missingAttributeValue name, nameSpan⟩], cursor, false⟩

/-- The value in quotes that starts at the cursor. -/
def quotedValue (name : String) (nameSpan : Span) (quote : Char) (cursor : Cursor) :
    ScannedAttribute :=
  let written := cursor.rest.takeWhile (· != quote)
  let value := RawAttribute.ofSource name nameSpan cursor.place written
  let faults := runFaults false cursor.place written
  match cursor.rest.dropWhile (· != quote) with
  | [] =>
      ⟨value, faults ++ [⟨.unexpectedEnd "an attribute value", value.valueSpan⟩],
        ⟨cursor.place.after written, []⟩, true⟩
  | c :: after => ⟨value, faults, ⟨(cursor.place.after written).next c, after⟩, false⟩

/-- The value without quotes that starts at the cursor. -/
def unquotedValue (name : String) (nameSpan : Span) (cursor : Cursor) : ScannedAttribute :=
  let (written, after) := splitUnquoted cursor.rest
  let value := RawAttribute.ofSource name nameSpan cursor.place written
  ⟨value,
    runFaults false cursor.place written ++ [⟨.unquotedAttributeValue name, value.valueSpan⟩],
    ⟨cursor.place.after written, after⟩, false⟩

/-- The value after `=`. -/
def valueAfterEquals (name : String) (nameSpan : Span) (cursor : Cursor) : ScannedAttribute :=
  let start := cursor.skip isBlank
  if lacksValue start.rest then withoutValue name nameSpan start
  else
    match start.rest with
    | '"' :: _ => quotedValue name nameSpan '"' (start.advance 1)
    | '\'' :: _ => quotedValue name nameSpan '\'' (start.advance 1)
    | _ => unquotedValue name nameSpan start

/-- The attribute whose name starts at the cursor. -/
def scanAttribute (cursor : Cursor) : ScannedAttribute :=
  let name := cursor.rest.takeWhile isNameChar
  let nameSpan := cursor.place.spanOf name
  let afterName := (cursor.skip isNameChar).skip isBlank
  match afterName.rest with
  | '=' :: _ => valueAfterEquals (String.ofList name) nameSpan (afterName.advance 1)
  | _ => withoutValue (String.ofList name) nameSpan afterName

theorem length_quotedValue_le (name : String) (nameSpan : Span) (quote : Char) (cursor : Cursor) :
    (quotedValue name nameSpan quote cursor).cursor.rest.length ≤ cursor.rest.length := by
  have hle := (List.dropWhile_sublist (· != quote) (l := cursor.rest)).length_le
  unfold quotedValue
  split
  · simp
  · rename_i hdrop
    rw [hdrop, List.length_cons] at hle
    exact Nat.le_of_succ_le hle

theorem length_valueAfterEquals_le (name : String) (nameSpan : Span) (cursor : Cursor) :
    (valueAfterEquals name nameSpan cursor).cursor.rest.length ≤ cursor.rest.length := by
  have hskip := cursor.length_skip_le isBlank
  have hadvance := (cursor.skip isBlank).length_advance_le 1
  unfold valueAfterEquals
  simp only
  split
  · exact hskip
  · split
    · exact Nat.le_trans (length_quotedValue_le ..) (Nat.le_trans hadvance hskip)
    · exact Nat.le_trans (length_quotedValue_le ..) (Nat.le_trans hadvance hskip)
    · exact Nat.le_trans (length_splitUnquoted_le _) hskip

/-- An attribute takes at least its name. -/
theorem length_scanAttribute_lt {cursor : Cursor} {c : Char} {rest : List Char}
    (hrest : cursor.rest = c :: rest) (hname : isNameChar c) :
    (scanAttribute cursor).cursor.rest.length < cursor.rest.length := by
  have hfirst : (cursor.skip isNameChar).rest.length < cursor.rest.length := by
    simp only [Cursor.skip, hrest, List.dropWhile_cons, hname, if_true, List.length_cons]
    exact Nat.lt_succ_of_le (List.dropWhile_sublist isNameChar (l := rest)).length_le
  have hblank := (cursor.skip isNameChar).length_skip_le isBlank
  unfold scanAttribute
  simp only
  split
  · refine Nat.lt_of_le_of_lt (length_valueAfterEquals_le ..) ?_
    exact Nat.lt_of_le_of_lt (Nat.le_trans (Cursor.length_advance_le 1 _) hblank) hfirst
  · exact Nat.lt_of_le_of_lt hblank hfirst

theorem isNameChar_of_isNameStart {c : Char} (h : isNameStart c) : isNameChar c := by
  simp only [isNameStart, Bool.or_eq_true] at h
  simp only [isNameChar, Char.isAlphanum, Bool.or_eq_true]
  rcases h with h | h
  · exact .inl (.inl (.inl (.inl (.inl h))))
  · exact .inl (.inl (.inl (.inr h)))

/-! ### Tags -/

/-- What the inside of a start tag holds, up to and with its end. -/
structure TagBody where
  attributes : List RawAttribute := []
  selfClosing : Bool := false
  faults : List PlacedFault := []
  cursor : Cursor

namespace TagBody

/-- The same with faults that come before its own. -/
def withFaults (body : TagBody) (faults : List PlacedFault) : TagBody :=
  { body with faults := faults ++ body.faults }

end TagBody

/-- Keeps an attribute whose name is new to the tag; a repeated name is a fault. -/
def admit? (attributes : List RawAttribute) (a : RawAttribute) :
    List RawAttribute × List PlacedFault :=
  if attributes.any (·.name == a.name) then
    (attributes, [⟨.duplicateAttribute a.name, a.nameSpan⟩])
  else (attributes ++ [a], [])

/-- The inside of the start tag `name`, which starts at `start`, after the attributes read so
far. -/
def tagBody (start : Position) (name : String) (attributes : List RawAttribute)
    (cursor : Cursor) : TagBody :=
  match _hrest : cursor.rest with
  | [] =>
      { attributes, cursor, faults := [⟨.unexpectedEnd "a tag", start.spanTo cursor.place⟩] }
  | c :: rest =>
      let after : Cursor := ⟨cursor.place.next c, rest⟩
      if isBlank c then tagBody start name attributes after
      else if c = '>' then { attributes, cursor := after }
      else if c = '/' && rest.head? == some '>' then
        { attributes, selfClosing := true, cursor := cursor.advance 2 }
      else if c = '/' then
        (tagBody start name attributes after).withFaults [⟨.expectedTagEnd name, after.place.here⟩]
      else if c = '<' then
        { attributes, cursor, faults := [⟨.unterminatedTag name, cursor.place.here⟩] }
      else if _hname : isNameStart c then
        let scanned := scanAttribute cursor
        let (attributes, duplicate) := admit? attributes scanned.value
        if scanned.cutOff then
          { attributes, cursor := scanned.cursor, faults := scanned.faults ++ duplicate }
        else
          (tagBody start name attributes scanned.cursor).withFaults (scanned.faults ++ duplicate)
      else
        (tagBody start name attributes after).withFaults
          [⟨.unexpectedCharacter c name, cursor.place.spanOf [c]⟩]
termination_by cursor.rest.length
decreasing_by
  · simp [_hrest]
  · simp [_hrest]
  · exact length_scanAttribute_lt _hrest (isNameChar_of_isNameStart _hname)
  · simp [_hrest]

@[simp] theorem TagBody.cursor_withFaults (body : TagBody) (faults : List PlacedFault) :
    (body.withFaults faults).cursor = body.cursor := rfl

theorem length_tagBody_le (start : Position) (name : String) (attributes : List RawAttribute)
    (cursor : Cursor) :
    (tagBody start name attributes cursor).cursor.rest.length ≤ cursor.rest.length := by
  fun_induction tagBody start name attributes cursor with
  | case1 => simp
  | case2 => grind
  | case3 => grind
  | case4 => exact Cursor.length_advance_le 2 _
  | case5 => grind [TagBody.cursor_withFaults]
  | case6 => grind
  | case7 => grind [length_scanAttribute_lt, isNameChar_of_isNameStart]
  | case8 => grind [TagBody.cursor_withFaults, length_scanAttribute_lt, isNameChar_of_isNameStart]
  | case9 => grind [TagBody.cursor_withFaults]

/-! ### Tokens -/

/-- A token, its faults, and the cursor after it. -/
structure Scanned where
  token : Token
  faults : List PlacedFault
  cursor : Cursor
deriving Inhabited

/-- The token of the given kind that started at `start` and ends at the cursor. -/
def Scanned.upTo (start : Position) (kind : TokenKind) (faults : List PlacedFault)
    (cursor : Cursor) : Scanned :=
  ⟨⟨kind, start.spanTo cursor.place⟩, faults, cursor⟩

/-- The text run at the cursor, up to the next tag. -/
def textRun (cursor : Cursor) : Scanned :=
  let (run, after) := splitText cursor.rest
  .upTo cursor.place (.ofText run) (runFaults true cursor.place run)
    ⟨cursor.place.after run, after⟩

/-- The start tag at the cursor. -/
def startTag (cursor : Cursor) : Scanned :=
  let inside := cursor.advance 1
  let name := inside.rest.takeWhile isNameChar
  let body := tagBody cursor.place (String.ofList name) [] (inside.skip isNameChar)
  .upTo cursor.place
    (.startTag (String.ofList name) (inside.place.spanOf name) body.attributes body.selfClosing)
    body.faults body.cursor

/-- What an end tag holds after its name: the first character that does not belong there. -/
def endTagJunk (tag : String) (cursor : Cursor) : List PlacedFault :=
  match cursor.rest.takeWhile (fun c => c != '>' && c != '<') with
  | [] => []
  | c :: _ => [⟨.unexpectedCharacter c tag, cursor.place.spanOf [c]⟩]

/-- The end tag at the cursor. One without a name is skipped. -/
def endTag (cursor : Cursor) : Scanned :=
  let inside := cursor.advance 2
  let name := inside.rest.takeWhile isNameChar
  let tag := "/" ++ String.ofList name
  let afterName := (inside.skip isNameChar).skip isBlank
  let junk := endTagJunk tag afterName
  let atEnd := afterName.skip (fun c => c != '>' && c != '<')
  let (faults, cursor') : List PlacedFault × Cursor :=
    match atEnd.rest with
    | [] => ([⟨.unexpectedEnd "an end tag", cursor.place.spanTo atEnd.place⟩], atEnd)
    | '<' :: _ => ([⟨.unterminatedTag tag, atEnd.place.here⟩], atEnd)
    | _ => ([], atEnd.advance 1)
  if name.isEmpty then
    let span := cursor.place.spanTo cursor'.place
    .upTo cursor.place .skipped (junk ++ faults ++ [⟨.emptyEndTag, span⟩]) cursor'
  else .upTo cursor.place (.endTag (String.ofList name)) (junk ++ faults) cursor'

/-- The characters before the first `-->`, if there is one. -/
def commentBody? : List Char → Option (List Char)
  | [] => none
  | c :: rest =>
      if ['-', '-', '>'].isPrefixOf (c :: rest) then some []
      else (commentBody? rest).map (c :: ·)

/-- The comment at the cursor. -/
def comment (cursor : Cursor) : Scanned :=
  let inside := cursor.advance 4
  match commentBody? inside.rest with
  | some body =>
      .upTo cursor.place (.comment (String.ofList body)) [] (inside.advance (body.length + 3))
  | none =>
      let atEnd := inside.advance inside.rest.length
      .upTo cursor.place (.comment (String.ofList inside.rest))
        [⟨.unexpectedEnd "a comment", cursor.place.spanTo atEnd.place⟩] atEnd

/-- The declaration or processing instruction at the cursor. -/
def declaration (cursor : Cursor) : Scanned :=
  let atEnd := (cursor.advance 1).skip (· != '>')
  match atEnd.rest with
  | [] =>
      .upTo cursor.place .skipped
        [⟨.unexpectedEnd "a declaration", cursor.place.spanTo atEnd.place⟩] atEnd
  | _ => .upTo cursor.place .skipped [] (atEnd.advance 1)

/-- The token at the cursor. -/
def token (cursor : Cursor) : Scanned :=
  match cursor.rest with
  | '<' :: rest =>
      if startsTag rest then
        match rest with
        | '/' :: _ => endTag cursor
        | '!' :: '-' :: '-' :: _ => comment cursor
        | '!' :: _ => declaration cursor
        | '?' :: _ => declaration cursor
        | _ => startTag cursor
      else textRun cursor
  | _ => textRun cursor

theorem length_advance_lt {cursor : Cursor} {n : Nat} (hn : 0 < n) (hrest : cursor.rest ≠ []) :
    (cursor.advance n).rest.length < cursor.rest.length := by
  have := List.length_pos_iff.2 hrest
  simp only [Cursor.advance, List.length_drop]
  omega

theorem length_textRun_lt {cursor : Cursor} (hrest : cursor.rest ≠ [])
    (htag : ∀ rest, cursor.rest = '<' :: rest → startsTag rest = false) :
    (textRun cursor).cursor.rest.length < cursor.rest.length := by
  have happend := congrArg List.length (append_splitText cursor.rest)
  rw [List.length_append] at happend
  have hpos : 0 < (splitText cursor.rest).1.length := by
    match hcases : cursor.rest with
    | [] => exact absurd hcases hrest
    | c :: rest =>
        unfold splitText
        split
        · rename_i h
          simp only [Bool.and_eq_true, decide_eq_true_eq] at h
          obtain ⟨rfl, hstart⟩ := h
          rw [htag rest hcases] at hstart
          exact absurd hstart (by simp)
        · simp
  simp only [textRun, Scanned.upTo]
  omega

theorem length_startTag_lt {cursor : Cursor} (hrest : cursor.rest ≠ []) :
    (startTag cursor).cursor.rest.length < cursor.rest.length := by
  simp only [startTag, Scanned.upTo]
  refine Nat.lt_of_le_of_lt (length_tagBody_le ..) ?_
  exact Nat.lt_of_le_of_lt (Cursor.length_skip_le ..) (length_advance_lt Nat.one_pos hrest)

theorem length_endTag_lt {cursor : Cursor} (hrest : cursor.rest ≠ []) :
    (endTag cursor).cursor.rest.length < cursor.rest.length := by
  have h2 : (cursor.advance 2).rest.length < cursor.rest.length :=
    length_advance_lt (by omega) hrest
  have hskip : ∀ keep, ((((cursor.advance 2).skip isNameChar).skip isBlank).skip keep).rest.length
      < cursor.rest.length := fun keep =>
    Nat.lt_of_le_of_lt (Nat.le_trans (Cursor.length_skip_le ..) <|
      Nat.le_trans (Cursor.length_skip_le ..) (Cursor.length_skip_le ..)) h2
  simp only [endTag]
  split <;> split <;> simp only [Scanned.upTo]
  all_goals first
    | exact hskip _
    | exact Nat.lt_of_le_of_lt (Cursor.length_advance_le ..) (hskip _)

theorem length_comment_lt {cursor : Cursor} (hrest : cursor.rest ≠ []) :
    (comment cursor).cursor.rest.length < cursor.rest.length := by
  have h4 : (cursor.advance 4).rest.length < cursor.rest.length :=
    length_advance_lt (by omega) hrest
  simp only [comment]
  split <;> exact Nat.lt_of_le_of_lt (Cursor.length_advance_le ..) h4

theorem length_declaration_lt {cursor : Cursor} (hrest : cursor.rest ≠ []) :
    (declaration cursor).cursor.rest.length < cursor.rest.length := by
  have h1 : ((cursor.advance 1).skip (· != '>')).rest.length < cursor.rest.length :=
    Nat.lt_of_le_of_lt (Cursor.length_skip_le ..) (length_advance_lt Nat.one_pos hrest)
  simp only [declaration]
  split
  · exact h1
  · exact Nat.lt_of_le_of_lt (Cursor.length_advance_le ..) h1

/-- Every token takes at least one character. -/
theorem length_token_lt {cursor : Cursor} (hrest : cursor.rest ≠ []) :
    (token cursor).cursor.rest.length < cursor.rest.length := by
  unfold token
  split
  · rename_i rest hcursor
    split
    · split
      · exact length_endTag_lt hrest
      · exact length_comment_lt hrest
      · exact length_declaration_lt hrest
      · exact length_declaration_lt hrest
      · exact length_startTag_lt hrest
    · rename_i hstart
      refine length_textRun_lt hrest fun rest' hrest' => ?_
      rw [hcursor, List.cons.injEq] at hrest'
      simpa [hrest'.2] using hstart
  · rename_i hno
    exact length_textRun_lt hrest fun rest' hrest' => absurd hrest' (hno rest')

/-- The tokens from the cursor to the end of the text. -/
def scanAll (cursor : Cursor) : List Scanned :=
  if _h : cursor.rest = [] then []
  else
    let scanned := token cursor
    scanned :: scanAll scanned.cursor
termination_by cursor.rest.length
decreasing_by exact length_token_lt _h

end Scanner

/-- The tokens of a text and every fault in it, both in source order. -/
structure TokenStream where
  tokens : List Token
  faults : List PlacedFault
deriving Repr, DecidableEq

/-- Cuts a markup text into tokens. -/
def TokenStream.ofSource (source : String) : TokenStream :=
  let scanned := Scanner.scanAll (Cursor.ofString source)
  ⟨scanned.map (·.token), scanned.flatMap (·.faults)⟩

end PatternMarkup
