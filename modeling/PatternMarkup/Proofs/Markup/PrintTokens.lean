import PatternMarkup.Proofs.Markup.Print
/-!
Scanning what was printed. The tokens of a printed tree spell the tree, tag by tag, and no token
has a fault.
-/

namespace PatternMarkup

/-! ### Tokens of a tree -/

namespace MarkupTree

/-- The attributes of a start tag without their places. -/
def pairs (attributes : List RawAttribute) : List (String × String) :=
  attributes.map fun a => (a.name, a.value)

mutual

/-- The tokens are those of a tree, wherever they stand. -/
inductive Spells : MarkupTree → List Token → Prop
  | element {name : String} {nameSpan span endSpan : Span} {attributes : List RawAttribute}
      {children : List MarkupTree} {tokens : List Token} (inner : SpellsAll children tokens) :
      Spells (.element name (pairs attributes) children)
        (⟨.startTag name nameSpan attributes false, span⟩ :: (tokens ++ [⟨.endTag name, endSpan⟩]))
  | selfClosed {name : String} {nameSpan span : Span} {attributes : List RawAttribute} :
      Spells (.selfClosed name (pairs attributes)) [⟨.startTag name nameSpan attributes true, span⟩]
  | text {content : String} {blank : Bool} {span : Span} :
      Spells (.text content) [⟨.text content blank, span⟩]
  | comment {content : String} {span : Span} : Spells (.comment content) [⟨.comment content, span⟩]

/-- The tokens are those of several trees, one tree after another. -/
inductive SpellsAll : List MarkupTree → List Token → Prop
  | nil : SpellsAll [] []
  | cons {tree : MarkupTree} {rest : List MarkupTree} {front back : List Token}
      (first : Spells tree front) (more : SpellsAll rest back) :
      SpellsAll (tree :: rest) (front ++ back)

end

end MarkupTree

namespace Scanner

/-! ### Steps without a fault -/

/-- From one cursor to another the scanner finds these tokens and no fault. -/
def Passes (start : Cursor) (tokens : List Token) (stop : Cursor) : Prop :=
  ∃ scanned, scanAll start = scanned ++ scanAll stop ∧ scanned.map (·.token) = tokens
    ∧ scanned.flatMap (·.faults) = []

theorem Passes.refl (cursor : Cursor) : Passes cursor [] cursor := ⟨[], rfl, rfl, rfl⟩

theorem Passes.trans {a b c : Cursor} {front back : List Token} (hab : Passes a front b)
    (hbc : Passes b back c) : Passes a (front ++ back) c := by
  obtain ⟨scanned, hscan, rfl, hfaults⟩ := hab
  obtain ⟨more, hmore, rfl, hmoreFaults⟩ := hbc
  refine ⟨scanned ++ more, ?_, by rw [List.map_append], ?_⟩
  · rw [hscan, hmore, List.append_assoc]
  · rw [List.flatMap_append, hfaults, hmoreFaults, List.append_nil]

theorem passes_of_token_eq {cursor after : Cursor} {kind : TokenKind} (hrest : cursor.rest ≠ [])
    (h : token cursor = .upTo cursor.place kind [] after) :
    Passes cursor [⟨kind, cursor.place.spanTo after.place⟩] after := by
  refine ⟨[token cursor], ?_, by rw [h]; rfl, by rw [h]; rfl⟩
  rw [scanAll, dif_neg hrest, List.singleton_append, h]
  rfl

/-! ### Names -/

theorem takeWhile_append_cons {keep : Char → Bool} {text : List Char} {c : Char}
    (htext : ∀ d ∈ text, keep d) (hc : keep c = false) (rest : List Char) :
    (text ++ c :: rest).takeWhile keep = text := by
  rw [List.takeWhile_append_of_pos htext, List.takeWhile_cons_of_neg (by simp [hc]),
    List.append_nil]

theorem dropWhile_append_cons {keep : Char → Bool} {text : List Char} {c : Char}
    (htext : ∀ d ∈ text, keep d) (hc : keep c = false) (rest : List Char) :
    (text ++ c :: rest).dropWhile keep = c :: rest := by
  rw [List.dropWhile_append_of_pos htext, List.dropWhile_cons_of_neg (by simp [hc])]

theorem skip_append_cons {keep : Char → Bool} {text : List Char} {c : Char}
    (htext : ∀ d ∈ text, keep d) (hc : keep c = false) (place : Position) (rest : List Char) :
    Cursor.skip keep ⟨place, text ++ c :: rest⟩ = ⟨place.after text, c :: rest⟩ := by
  rw [Cursor.skip, takeWhile_append_cons htext hc, dropWhile_append_cons htext hc]

theorem skip_cons_of_not {keep : Char → Bool} {c : Char} (hc : keep c = false) (place : Position)
    (rest : List Char) : Cursor.skip keep ⟨place, c :: rest⟩ = ⟨place, c :: rest⟩ :=
  skip_append_cons (List.forall_mem_nil _) hc place rest

theorem isNameChar_of_isName {name : List Char} (h : MarkupTree.IsName name) :
    ∀ c ∈ name, isNameChar c := by
  cases name with
  | nil => exact h.elim
  | cons c rest =>
      intro d hd
      rcases List.mem_cons.mp hd with rfl | hd
      · exact isNameChar_of_isNameStart h.1
      · exact List.all_eq_true.mp h.2 d hd

theorem not_isBlank_of_isNameStart {c : Char} (h : isNameStart c) : isBlank c = false := by
  have hrange : 65 ≤ c.toNat ∧ c.toNat ≤ 122 := by
    have hcases : (decide (c.val ≥ 'A'.val ∧ c.val ≤ 'Z'.val)
        || decide (c.val ≥ 'a'.val) && decide (c.val ≤ 'z'.val) || c == '_') = true := h
    simp only [Bool.or_eq_true, Bool.and_eq_true, decide_eq_true_eq, beq_iff_eq] at hcases
    rcases hcases with (h | h) | rfl
    · exact ⟨h.1, Nat.le_trans h.2 (by decide)⟩
    · exact ⟨Nat.le_trans (by decide) h.1, h.2⟩
    · decide
  simp [isBlank]
  omega

/-- A name starts with a character that ends no tag and begins no other markup. -/
theorem exists_cons_of_isName {name : List Char} (h : MarkupTree.IsName name) :
    ∃ c rest, name = c :: rest ∧ isNameStart c ∧ c ≠ '>' ∧ c ≠ '/' ∧ c ≠ '<' ∧ c ≠ '!'
      ∧ c ≠ '?' := by
  cases name with
  | nil => exact h.elim
  | cons c rest =>
      refine ⟨c, rest, rfl, h.1, ?_, ?_, ?_, ?_, ?_⟩ <;> rintro rfl <;> exact absurd h.1 (by decide)

/-! ### Attributes -/

/-- A value between quotes is read back from what is written. -/
theorem quotedValue_escape (name : String) (nameSpan : Span) (place : Position)
    (value rest : List Char) :
    ∃ raw place', quotedValue name nameSpan '"'
        ⟨place, MarkupTree.escape true value ++ '"' :: rest⟩ = ⟨raw, [], ⟨place', rest⟩, false⟩
      ∧ raw.name = name ∧ raw.value = String.ofList value := by
  have hvalue : ∀ d ∈ MarkupTree.escape true value, (d != '"') = true := fun d hd =>
    bne_iff_ne.mpr ((MarkupTree.ne_of_mem_escape hd).2 rfl)
  rw [quotedValue]
  simp only [takeWhile_append_cons hvalue (bne_self_eq_false '"'),
    dropWhile_append_cons hvalue (bne_self_eq_false '"'), MarkupTree.runFaults_escape]
  refine ⟨_, _, rfl, rfl, ?_⟩
  rw [RawAttribute.ofSource, MarkupTree.decode_escape]

theorem scanAttribute_print {name : List Char} (h : MarkupTree.IsName name) (place : Position)
    (value rest : List Char) :
    ∃ raw place', scanAttribute ⟨place, name ++ '=' :: '"' ::
        (MarkupTree.escape true value ++ '"' :: rest)⟩ = ⟨raw, [], ⟨place', rest⟩, false⟩
      ∧ raw.name = String.ofList name ∧ raw.value = String.ofList value := by
  have hname := isNameChar_of_isName h
  have hequals : isNameChar '=' = false := by decide
  have hquote : isBlank '"' = false := by decide
  rw [scanAttribute]
  simp only [takeWhile_append_cons hname hequals, skip_append_cons hname hequals,
    skip_cons_of_not (show isBlank '=' = false by decide)]
  rw [Cursor.advance]
  simp only [List.take_succ_cons, List.take_zero, List.drop_succ_cons, List.drop_zero]
  rw [valueAfterEquals]
  simp only [skip_cons_of_not hquote]
  rw [if_neg (by simp [lacksValue])]
  exact quotedValue_escape _ _ _ value rest

theorem tagBody_space (start : Position) (name : String) (before : List RawAttribute)
    (place : Position) (rest : List Char) :
    tagBody start name before ⟨place, ' ' :: rest⟩
      = tagBody start name before ⟨place.next ' ', rest⟩ := by
  rw [tagBody.eq_def]
  rfl

/-- An attribute without a fault joins those before it if its name is new. -/
theorem tagBody_attribute (start : Position) (tag : String) (before : List RawAttribute)
    {place : Position} {name rest : List Char} {raw : RawAttribute} {after : Cursor}
    (hname : MarkupTree.IsName name)
    (hscan : scanAttribute ⟨place, name ++ rest⟩ = ⟨raw, [], after, false⟩)
    (hnew : ∀ a ∈ before, a.name ≠ raw.name) :
    tagBody start tag before ⟨place, name ++ rest⟩ = tagBody start tag (before ++ [raw]) after := by
  obtain ⟨c, more, rfl, hstart, hgreater, hslash, hless, -, -⟩ := exists_cons_of_isName hname
  have hadmit : admit? before raw = (before ++ [raw], []) := by
    rw [admit?, if_neg (by simpa using hnew)]
  rw [tagBody.eq_def]
  simp only [List.cons_append]
  rw [if_neg (by simp [not_isBlank_of_isNameStart hstart]), if_neg hgreater,
    if_neg (by simp [hslash]), if_neg hslash, if_neg hless, dif_pos hstart]
  rw [List.cons_append] at hscan
  simp only [hscan, hadmit, List.append_nil, TagBody.withFaults, List.nil_append]
  rw [if_neg (by simp)]

/-- What ends a start tag. -/
def tagEnd (selfClosing : Bool) : List Char := if selfClosing then ['/', '>'] else ['>']

theorem tagBody_tagEnd (start : Position) (name : String) (selfClosing : Bool)
    (before : List RawAttribute) (place : Position) (rest : List Char) :
    ∃ place', tagBody start name before ⟨place, tagEnd selfClosing ++ rest⟩
      = ⟨before, selfClosing, [], ⟨place', rest⟩⟩ := by
  cases selfClosing with
  | false =>
      refine ⟨place.next '>', ?_⟩
      rw [tagBody.eq_def]
      rfl
  | true =>
      refine ⟨(place.next '/').next '>', ?_⟩
      rw [tagBody.eq_def]
      rfl

/-- The attributes of a tag are read back from what is written, after any others. The induction
is on the attributes; those read so far grow by one at each. -/
theorem tagBody_printAttributes (start : Position) (name : String) (selfClosing : Bool)
    (rest : List Char) (attributes : List (String × String)) (before : List RawAttribute)
    (place : Position) (hnames : ∀ a ∈ attributes, MarkupTree.IsName a.1.toList)
    (hdistinct : ((MarkupTree.pairs before ++ attributes).map Prod.fst).Nodup) :
    ∃ raws place', tagBody start name before
        ⟨place, MarkupTree.printAttributes attributes ++ (tagEnd selfClosing ++ rest)⟩
          = ⟨raws, selfClosing, [], ⟨place', rest⟩⟩
      ∧ MarkupTree.pairs raws = MarkupTree.pairs before ++ attributes := by
  induction attributes generalizing before place with
  | nil =>
      obtain ⟨place', hend⟩ := tagBody_tagEnd start name selfClosing before place rest
      exact ⟨before, place', hend, (List.append_nil _).symm⟩
  | cons a attributes ih =>
      obtain ⟨key, value⟩ := a
      have hkey := hnames (key, value) List.mem_cons_self
      obtain ⟨raw, after, hscan, hrawName, hrawValue⟩ := scanAttribute_print hkey (place.next ' ')
        value.toList (MarkupTree.printAttributes attributes ++ (tagEnd selfClosing ++ rest))
      rw [String.ofList_toList] at hrawName hrawValue
      have hpairs : MarkupTree.pairs (before ++ [raw])
          = MarkupTree.pairs before ++ [(key, value)] := by
        simp [MarkupTree.pairs, hrawName, hrawValue]
      have hnew : ∀ b ∈ before, b.name ≠ raw.name := by
        intro b hb hname
        rw [List.map_append, List.nodup_append] at hdistinct
        exact hdistinct.2.2 b.name (List.mem_map_of_mem (List.mem_map_of_mem hb)) key
          List.mem_cons_self (hname.trans hrawName)
      obtain ⟨raws, place', htags, hraws⟩ := ih (before ++ [raw]) after
        (fun b hb => hnames b (List.mem_cons_of_mem _ hb))
        (by rw [hpairs, List.append_assoc]; exact hdistinct)
      refine ⟨raws, place', ?_, ?_⟩
      · rw [MarkupTree.printAttributes]
        simp only [List.cons_append, List.append_assoc]
        rw [tagBody_space, tagBody_attribute start name before hkey hscan hnew, htags]
      · rw [hraws, hpairs, List.append_assoc, List.singleton_append]

/-! ### Tags, comments and text -/

/-- No name goes on with what follows the name of a start tag. -/
theorem exists_cons_printAttributes (attributes : List (String × String)) (selfClosing : Bool)
    (rest : List Char) :
    ∃ c more, MarkupTree.printAttributes attributes ++ (tagEnd selfClosing ++ rest) = c :: more
      ∧ isNameChar c = false := by
  cases attributes with
  | nil => cases selfClosing <;> exact ⟨_, _, rfl, by decide⟩
  | cons a attributes =>
      rw [MarkupTree.printAttributes]
      exact ⟨_, _, rfl, by decide⟩

theorem token_startTag {name : List Char} (h : MarkupTree.IsName name) (place : Position)
    (rest : List Char) :
    token ⟨place, '<' :: (name ++ rest)⟩ = startTag ⟨place, '<' :: (name ++ rest)⟩ := by
  obtain ⟨c, more, rfl, hstart, -, hslash, -, hbang, hquestion⟩ := exists_cons_of_isName h
  unfold token
  simp only [List.cons_append]
  rw [if_pos (by simp [startsTag, hstart])]
  split
  case h_5 => rfl
  case h_1 heq => exact absurd (List.cons.inj heq).1 hslash
  case h_4 heq => exact absurd (List.cons.inj heq).1 hquestion
  case h_2 heq => exact absurd (List.cons.inj heq).1 hbang
  case h_3 heq => exact absurd (List.cons.inj heq).1 hbang

/-- The start tag of an element, with its name and attributes, is read back. -/
theorem passes_startTag {name : String} {attributes : List (String × String)}
    (hname : MarkupTree.IsName name.toList) (hattributes : MarkupTree.AreAttributes attributes)
    (selfClosing : Bool) (place : Position) (rest : List Char) :
    ∃ raws nameSpan place',
      Passes ⟨place, '<' :: (name.toList ++ (MarkupTree.printAttributes attributes
          ++ (tagEnd selfClosing ++ rest)))⟩
        [⟨.startTag name nameSpan raws selfClosing, place.spanTo place'⟩] ⟨place', rest⟩
      ∧ MarkupTree.pairs raws = attributes := by
  obtain ⟨raws, place', hbody, hraws⟩ := tagBody_printAttributes place name selfClosing rest
    attributes [] ((place.next '<').after name.toList) hattributes.names hattributes.distinct
  obtain ⟨c, more, hmore, hc⟩ := exists_cons_printAttributes attributes selfClosing rest
  have hchars := isNameChar_of_isName hname
  refine ⟨raws, (place.next '<').spanOf name.toList, place', passes_of_token_eq (by simp) ?_, hraws⟩
  rw [token_startTag hname, startTag, Cursor.advance]
  simp only [List.take_succ_cons, List.take_zero, List.drop_succ_cons, List.drop_zero,
    Position.after_cons, Position.after_nil]
  rw [hmore] at hbody ⊢
  rw [takeWhile_append_cons hchars hc, skip_append_cons hchars hc, String.ofList_toList, hbody]

theorem passes_endTag {name : String} (hname : MarkupTree.IsName name.toList) (place : Position)
    (rest : List Char) :
    ∃ place', Passes ⟨place, '<' :: '/' :: (name.toList ++ '>' :: rest)⟩
      [⟨.endTag name, place.spanTo place'⟩] ⟨place', rest⟩ := by
  have hchars := isNameChar_of_isName hname
  have hend : isNameChar '>' = false := by decide
  have hblank : isBlank '>' = false := by decide
  have hnonempty : name.toList.isEmpty = false := by
    obtain ⟨c, more, hc, -⟩ := exists_cons_of_isName hname
    rw [hc]
    rfl
  have htoken : token ⟨place, '<' :: '/' :: (name.toList ++ '>' :: rest)⟩
      = endTag ⟨place, '<' :: '/' :: (name.toList ++ '>' :: rest)⟩ := rfl
  refine ⟨(((place.next '<').next '/').after name.toList).next '>',
    passes_of_token_eq (by simp) ?_⟩
  rw [htoken, endTag, Cursor.advance]
  simp only [List.take_succ_cons, List.take_zero, List.drop_succ_cons, List.drop_zero,
    takeWhile_append_cons hchars hend, skip_append_cons hchars hend, skip_cons_of_not hblank]
  rw [hnonempty, String.ofList_toList]
  rfl

/-- A comment ends at the first `-->`, which is the one after it even if it ends in dashes. -/
theorem commentBody?_append {content : List Char} (h : ¬ ['-', '-', '>'] <:+: content)
    (rest : List Char) : commentBody? (content ++ '-' :: '-' :: '>' :: rest) = some content := by
  induction content with
  | nil => rfl
  | cons c content ih =>
      have hinner := ih fun hinner => h (hinner.trans (List.suffix_cons c content).isInfix)
      have hprefix : ['-', '-', '>'].isPrefixOf (c :: (content ++ '-' :: '-' :: '>' :: rest))
          = false := by
        rw [Bool.eq_false_iff]
        intro hprefix
        match content with
        | [] => simp [List.isPrefixOf] at hprefix
        | [d] => simp [List.isPrefixOf] at hprefix
        | d :: e :: content =>
            simp only [List.cons_append, List.isPrefixOf, Bool.and_eq_true, beq_iff_eq] at hprefix
            obtain ⟨rfl, rfl, rfl, -⟩ := hprefix
            exact h ⟨[], content, rfl⟩
      rw [List.cons_append, commentBody?, hprefix, if_neg (by simp), hinner, Option.map_some]

theorem passes_comment {content : String} (hcontent : ¬ ['-', '-', '>'] <:+: content.toList)
    (place : Position) (rest : List Char) :
    ∃ place', Passes ⟨place, '<' :: '!' :: '-' :: '-' :: (content.toList
        ++ '-' :: '-' :: '>' :: rest)⟩
      [⟨.comment content, place.spanTo place'⟩] ⟨place', rest⟩ := by
  have htoken : token ⟨place, '<' :: '!' :: '-' :: '-' :: (content.toList
        ++ '-' :: '-' :: '>' :: rest)⟩
      = comment ⟨place, '<' :: '!' :: '-' :: '-' :: (content.toList
        ++ '-' :: '-' :: '>' :: rest)⟩ := rfl
  have hdrop : (content.toList ++ '-' :: '-' :: '>' :: rest).drop (content.toList.length + 3)
      = rest := by
    rw [← List.drop_drop, List.drop_left]
    rfl
  refine ⟨(place.after ['<', '!', '-', '-']).after ((content.toList
    ++ '-' :: '-' :: '>' :: rest).take (content.toList.length + 3)),
    passes_of_token_eq (by simp) ?_⟩
  rw [htoken, comment, Cursor.advance]
  simp only [List.take_succ_cons, List.take_zero, List.drop_succ_cons, List.drop_zero,
    commentBody?_append hcontent, String.ofList_toList]
  rw [Cursor.advance, hdrop]

/-- The text goes on with a tag or a comment. -/
def StartsMarkup : List Char → Prop
  | '<' :: rest => startsTag rest
  | _ => False

theorem splitText_append {run rest : List Char} (hrun : ∀ c ∈ run, c ≠ '<')
    (hrest : StartsMarkup rest) : splitText (run ++ rest) = (run, rest) := by
  induction run with
  | nil =>
      unfold StartsMarkup at hrest
      split at hrest
      · rw [List.nil_append, splitText, if_pos (by simp [hrest])]
      · exact hrest.elim
  | cons c run ih =>
      have hc : c ≠ '<' := hrun c List.mem_cons_self
      rw [List.cons_append, splitText, if_neg (by simp [hc]),
        ih fun d hd => hrun d (List.mem_cons_of_mem c hd)]

theorem token_text {run : List Char} (hrun : ∀ c ∈ run, c ≠ '<') (hne : run ≠ [])
    (place : Position) (rest : List Char) :
    token ⟨place, run ++ rest⟩ = textRun ⟨place, run ++ rest⟩ := by
  cases run with
  | nil => exact absurd rfl hne
  | cons c run =>
      unfold token
      split
      case h_1 heq => exact absurd (List.cons.inj heq).1 (hrun c List.mem_cons_self)
      case h_2 => rfl

theorem escape_ne_nil {text : List Char} (h : text ≠ []) (quoted : Bool) :
    MarkupTree.escape quoted text ≠ [] := by
  intro hnil
  have hdecode := MarkupTree.decode_escape quoted text
  rw [hnil, Entity.decode_nil] at hdecode
  exact h hdecode.symm

theorem passes_text {content : String} (hcontent : MarkupTree.IsNormalText content.toList)
    (place : Position) {rest : List Char} (hrest : StartsMarkup rest) :
    ∃ blank place', Passes ⟨place, MarkupTree.escape false content.toList ++ rest⟩
      [⟨.text content blank, place.spanTo place'⟩] ⟨place', rest⟩ := by
  have hrun : ∀ c ∈ MarkupTree.escape false content.toList, c ≠ '<' := fun c hc =>
    (MarkupTree.ne_of_mem_escape hc).1
  have hne := escape_ne_nil hcontent.nonempty false
  refine ⟨content.toList.all isBlank, place.after (MarkupTree.escape false content.toList),
    passes_of_token_eq (by simp [hne]) ?_⟩
  rw [token_text hrun hne, textRun]
  simp only [splitText_append hrun hrest, MarkupTree.runFaults_escape]
  rw [TokenKind.ofText, MarkupTree.textContent_escape hcontent, String.ofList_toList,
    MarkupTree.decode_escape]

end Scanner

/-! ### Printed trees -/

namespace MarkupTree

open Scanner

theorem startsTag_of_isName {name : List Char} (h : IsName name) (rest : List Char) :
    startsTag (name ++ rest) := by
  obtain ⟨c, more, rfl, hstart, -⟩ := exists_cons_of_isName h
  simp [startsTag, hstart]

/-- All printed trees but text start with a tag or a comment. -/
theorem startsMarkup_print {tree : MarkupTree} (h : tree.WellFormed) (htext : ¬ tree.isText)
    (rest : List Char) : StartsMarkup (tree.print ++ rest) := by
  cases tree with
  | element name attributes children =>
      rw [WellFormed] at h
      rw [print, List.cons_append, List.append_assoc]
      exact startsTag_of_isName h.1 _
  | selfClosed name attributes =>
      rw [WellFormed] at h
      rw [print, List.cons_append, List.append_assoc]
      exact startsTag_of_isName h.1 _
  | text content => exact absurd rfl htext
  | comment content =>
      rw [print]
      exact rfl

/-- So what follows a text among its neighbours is markup. -/
theorem startsMarkup_printAll {trees : List MarkupTree} (h : AllWellFormed trees)
    (htext : ∀ next ∈ trees.head?, ¬ next.isText) {rest : List Char} (hrest : StartsMarkup rest) :
    StartsMarkup (printAll trees ++ rest) := by
  cases trees with
  | nil =>
      rw [printAll]
      exact hrest
  | cons tree trees =>
      rw [AllWellFormed] at h
      rw [printAll, List.append_assoc]
      exact startsMarkup_print h.1 (htext tree rfl) _

mutual

/-- A printed tree is scanned without a fault into tokens that spell it. Text needs markup after
it to end. -/
theorem passes_print : (tree : MarkupTree) → tree.WellFormed → (place : Position) →
    (rest : List Char) → (tree.isText → StartsMarkup rest) →
    ∃ tokens place', Passes ⟨place, tree.print ++ rest⟩ tokens ⟨place', rest⟩
      ∧ Spells tree tokens
  | .text content, h, place, rest, hrest => by
      rw [WellFormed] at h
      obtain ⟨blank, place', hpass⟩ := passes_text h place (hrest rfl)
      exact ⟨_, place', by rw [print]; exact hpass, .text⟩
  | .comment content, h, place, rest, hrest => by
      rw [WellFormed] at h
      obtain ⟨place', hpass⟩ := passes_comment h place rest
      have hprint : (comment content).print ++ rest = '<' :: '!' :: '-' :: '-' ::
          (content.toList ++ '-' :: '-' :: '>' :: rest) := by simp [print]
      exact ⟨_, place', by rw [hprint]; exact hpass, .comment⟩
  | .selfClosed name attributes, h, place, rest, hrest => by
      rw [WellFormed] at h
      obtain ⟨raws, nameSpan, place', hpass, rfl⟩ := passes_startTag h.1 h.2 true place rest
      have hprint : (selfClosed name (pairs raws)).print ++ rest = '<' :: (name.toList
          ++ (printAttributes (pairs raws) ++ (tagEnd true ++ rest))) := by simp [print, tagEnd]
      exact ⟨_, place', by rw [hprint]; exact hpass, .selfClosed⟩
  | .element name attributes children, h, place, rest, hrest => by
      rw [WellFormed] at h
      obtain ⟨hname, hattributes, hchildren⟩ := h
      have hprint : (element name attributes children).print ++ rest = '<' :: (name.toList
          ++ (printAttributes attributes ++ (tagEnd false
            ++ (printAll children ++ '<' :: '/' :: (name.toList ++ '>' :: rest))))) := by
        simp [print, tagEnd]
      obtain ⟨raws, nameSpan, inner, hopen, rfl⟩ := passes_startTag hname hattributes false place
        (printAll children ++ '<' :: '/' :: (name.toList ++ '>' :: rest))
      obtain ⟨tokens, close, hinner, hspells⟩ := passes_printAll children hchildren inner
        ('<' :: '/' :: (name.toList ++ '>' :: rest)) rfl
      obtain ⟨place', hclose⟩ := passes_endTag hname close rest
      have hpass := hopen.trans (hinner.trans hclose)
      rw [← hprint] at hpass
      exact ⟨_, place', hpass, .element hspells⟩
termination_by structural tree => tree

theorem passes_printAll : (trees : List MarkupTree) → AllWellFormed trees → (place : Position) →
    (rest : List Char) → StartsMarkup rest →
    ∃ tokens place', Passes ⟨place, printAll trees ++ rest⟩ tokens ⟨place', rest⟩
      ∧ SpellsAll trees tokens
  | [], h, place, rest, hrest => ⟨[], place, by rw [printAll]; exact .refl _, .nil⟩
  | tree :: trees, h, place, rest, hrest => by
      rw [AllWellFormed] at h
      obtain ⟨htree, hneighbour, htrees⟩ := h
      obtain ⟨front, between, hfront, hspells⟩ := passes_print tree htree place
        (printAll trees ++ rest) fun htext => startsMarkup_printAll htrees (hneighbour htext) hrest
      obtain ⟨back, place', hback, hspellsAll⟩ := passes_printAll trees htrees between rest hrest
      refine ⟨front ++ back, place', ?_, .cons hspells hspellsAll⟩
      rw [printAll, List.append_assoc]
      exact hfront.trans hback
termination_by structural trees => trees

end

/-- A printed element is cut into tokens that spell it, without a fault. -/
theorem spells_ofSource {tree : MarkupTree} (h : tree.WellFormed) (helement : tree.isElement) :
    tree.Spells (TokenStream.ofSource (String.ofList tree.print)).tokens
      ∧ (TokenStream.ofSource (String.ofList tree.print)).faults = [] := by
  have htext : ¬ tree.isText := by
    cases tree <;> simp [isText, isElement] at helement ⊢
  obtain ⟨tokens, place', ⟨scanned, hscan, rfl, hfaults⟩, hspells⟩ :=
    passes_print tree h Position.start [] fun ht => absurd ht htext
  have hend : scanAll ⟨place', []⟩ = [] := by rw [scanAll, dif_pos rfl]
  rw [hend, List.append_nil, List.append_nil] at hscan
  have hstream : TokenStream.ofSource (String.ofList tree.print)
      = ⟨scanned.map (·.token), scanned.flatMap (·.faults)⟩ := by
    rw [TokenStream.ofSource, Cursor.ofString, String.toList_ofList, hscan]
  rw [hstream]
  exact ⟨hspells, hfaults⟩

end MarkupTree

end PatternMarkup
