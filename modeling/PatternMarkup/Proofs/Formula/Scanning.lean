import PatternMarkup.Proofs.Formula.Bracing
import PatternMarkup.Text.Quoted
/-!
Scanning what a formula is printed with. A word, a decimal, a quoted text or a sign is one token
as long as the text after it does not go on with that token.
-/

namespace PatternMarkup

namespace FormulaScan

open FormulaParser TokenReading

/-- A text has tokens of these kinds, wherever it stands. -/
def ScansTo (text : List Char) (these : List FormulaToken) : Prop :=
  ∃ tokens, scanFormula 0 text = .ok tokens ∧ kinds tokens = these

theorem scansTo_nil : ScansTo [] [] := ⟨[], by rw [scanFormula], rfl⟩

/-- A text that scans, scans from every byte on. -/
theorem ScansTo.tokens_eq {text : List Char} {these : List FormulaToken} (h : ScansTo text these)
    (offset : Nat) : ∃ tokens, scanFormula offset text = .ok tokens ∧ kinds tokens = these := by
  obtain ⟨tokens, hscan, rfl⟩ := h
  exact scanFormula_kinds hscan offset

theorem scansTo_space {rest : List Char} {these : List FormulaToken} (h : ScansTo rest these) :
    ScansTo (' ' :: rest) these := by
  obtain ⟨tokens, hscan, hkinds⟩ := h.tokens_eq (0 + ' '.utf8Size)
  refine ⟨tokens, ?_, hkinds⟩
  rw [scanFormula, if_pos (by decide)]
  exact hscan

/-! ### One token -/

/-- No token starts with a character that separates tokens. -/
theorem isSpace_of_token {c : Char} {rest : List Char} {token : FormulaToken}
    (h : (read c rest).token = some token) : isSpace c = false := by
  by_contra hspace
  have hcases : c = ' ' ∨ c = '\t' ∨ c = '\r' ∨ c = '\n' := by
    rw [Bool.not_eq_false] at hspace
    simpa only [isSpace, Bool.or_eq_true, beq_iff_eq, or_assoc] using hspace
  have hsign : ofSign c rest = ⟨none, 1⟩ := by
    rcases rest with _ | ⟨d, rest⟩ <;> rcases hcases with rfl | rfl | rfl | rfl <;>
      simp [ofSign, doubleSign?, sign?]
  have hread : read c rest = ofSign c rest := by
    rcases hcases with rfl | rfl | rfl | rfl <;> rfl
  rw [hread, hsign] at h
  cases h

/-- A token that is read from the front of a text is the first of its tokens. -/
theorem scansTo_token (c : Char) (written : List Char) {rest : List Char} {token : FormulaToken}
    {these : List FormulaToken}
    (hread : read c (written ++ rest) = ⟨some token, written.length + 1⟩)
    (h : ScansTo rest these) : ScansTo (c :: (written ++ rest)) (token :: these) := by
  have htoken : (read c (written ++ rest)).token = some token := by rw [hread]
  have hspace : isSpace c = false := isSpace_of_token htoken
  let stop := 0 + byteLength ((c :: (written ++ rest)).take (written.length + 1))
  obtain ⟨tokens, hscan, hkinds⟩ := h.tokens_eq stop
  refine ⟨⟨token, ⟨0, stop⟩⟩ :: tokens, ?_, by rw [kinds_cons, hkinds]⟩
  rw [scanFormula, if_neg (by simp [hspace])]
  simp only [hread, Nat.add_sub_cancel, List.drop_left]
  rw [hscan]

/-! ### Where a token ends -/

/-- A text does not start with a character of a class. -/
def Stops (keep : Char → Bool) (rest : List Char) : Prop := ∀ c ∈ rest.head?, keep c = false

theorem stops_cons {keep : Char → Bool} {c : Char} {rest : List Char} (h : keep c = false) :
    Stops keep (c :: rest) := by
  intro d hd
  obtain rfl := Option.some.inj hd
  exact h

theorem stops_nil (keep : Char → Bool) : Stops keep [] := by
  intro c hc
  cases hc

theorem takeWhile_append_of_stops {keep : Char → Bool} {front rest : List Char}
    (hfront : ∀ c ∈ front, keep c) (hrest : Stops keep rest) :
    (front ++ rest).takeWhile keep = front := by
  rw [List.takeWhile_append_of_pos hfront]
  cases rest with
  | nil => simp
  | cons c rest =>
      rw [List.takeWhile_cons_of_neg (by simp [hrest c rfl]), List.append_nil]

theorem dropWhile_append_of_stops {keep : Char → Bool} {front rest : List Char}
    (hfront : ∀ c ∈ front, keep c) (hrest : Stops keep rest) :
    (front ++ rest).dropWhile keep = rest := by
  rw [List.dropWhile_append_of_pos hfront]
  cases rest with
  | nil => rfl
  | cons c rest => rw [List.dropWhile_cons_of_neg (by simp [hrest c rfl])]

/-! ### Words -/

/-- The characters of a name. -/
def IsWord : List Char → Prop
  | [] => False
  | c :: rest => isWordStart c ∧ ∀ d ∈ rest, isWordChar d

/-- A word that is a name and no truth value. -/
def IsName (name : String) : Prop := IsWord name.toList ∧ ofWord name.toList = .word name

theorem isName_of_ofWord {word : List Char} {name : String} (hword : IsWord word)
    (h : ofWord word = .word name) : IsName name := by
  have hname : String.ofList word = name := by
    unfold ofWord at h
    split at h
    · cases h
    · split at h
      · cases h
      · exact FormulaToken.word.inj h
  subst hname
  rw [IsName, String.toList_ofList]
  exact ⟨hword, h⟩

theorem scansTo_word {word rest : List Char} {these : List FormulaToken} (hword : IsWord word)
    (hrest : Stops isWordChar rest) (h : ScansTo rest these) :
    ScansTo (word ++ rest) (ofWord word :: these) := by
  cases word with
  | nil => exact hword.elim
  | cons c word =>
      refine scansTo_token _ _ ?_ h
      rw [TokenReading.read, if_pos hword.1, takeWhile_append_of_stops hword.2 hrest]
      rfl

theorem scansTo_name {name : String} {rest : List Char} {these : List FormulaToken}
    (hname : IsName name) (hrest : Stops isWordChar rest) (h : ScansTo rest these) :
    ScansTo (name.toList ++ rest) (.word name :: these) := by
  rw [← hname.2]
  exact scansTo_word hname.1 hrest h

/-- No word starts with a digit. -/
theorem isWordStart_of_isDigit {c : Char} (h : c.isDigit) : isWordStart c = false := by
  have hdigit : 48 ≤ c.toNat ∧ c.toNat ≤ 57 := by
    have hrange : (decide (c.val ≥ '0'.val) && decide (c.val ≤ '9'.val)) = true := h
    rw [Bool.and_eq_true, decide_eq_true_eq, decide_eq_true_eq] at hrange
    exact hrange
  by_contra hstart
  rw [Bool.not_eq_false] at hstart
  have hcases : (decide (c.val ≥ 'A'.val ∧ c.val ≤ 'Z'.val)
      || decide (c.val ≥ 'a'.val) && decide (c.val ≤ 'z'.val) || c == '_') = true := hstart
  simp only [Bool.or_eq_true, Bool.and_eq_true, decide_eq_true_eq, beq_iff_eq] at hcases
  rcases hcases with (hupper | hlower) | rfl
  · have hleast : 65 ≤ c.toNat := hupper.1
    omega
  · have hleast : 97 ≤ c.toNat := hlower.1
    omega
  · exact absurd h (by decide)

/-- A text that starts with a word does not start with a character that starts no word. -/
theorem IsWord.stops {word : List Char} (h : IsWord word) {keep : Char → Bool}
    (hkeep : ∀ c, keep c → isWordStart c = false) (rest : List Char) :
    Stops keep (word ++ rest) := by
  cases word with
  | nil => exact h.elim
  | cons c word =>
      refine stops_cons ?_
      by_contra hc
      rw [Bool.not_eq_false] at hc
      have hstart := h.1
      rw [hkeep c hc] at hstart
      cases hstart

theorem IsWord.stops_digit {word : List Char} (h : IsWord word) (rest : List Char) :
    Stops Char.isDigit (word ++ rest) :=
  h.stops (fun _ hc => isWordStart_of_isDigit hc) rest

theorem IsWord.stops_equals {word : List Char} (h : IsWord word) (rest : List Char) :
    Stops (· == '=') (word ++ rest) := by
  refine h.stops (fun c hc => ?_) rest
  obtain rfl := beq_iff_eq.mp hc
  decide

theorem isName_of_read {c : Char} {rest : List Char} {name : String}
    (h : (read c rest).token = some (.word name)) : IsName name := by
  unfold TokenReading.read at h
  split at h
  · next hstart =>
      have hword : IsWord (c :: rest.takeWhile isWordChar) :=
        ⟨hstart, fun d hd => List.mem_takeWhile_imp hd⟩
      exact isName_of_ofWord hword (Option.some.inj h)
  · split at h
    · cases h
    · split at h
      · unfold ofQuoted at h
        simp only at h
        split at h <;> cases h
      · unfold ofSign at h
        split at h
        · cases h
        · obtain ⟨s, -, hs⟩ := Option.map_eq_some_iff.mp h
          cases hs

/-- The words among the tokens of a text are names. -/
theorem isName_of_scan {offset : Nat} {text : List Char} {tokens : List PlacedToken}
    (h : scanFormula offset text = .ok tokens) {name : String}
    (hname : .word name ∈ kinds tokens) : IsName name := by
  fun_induction scanFormula offset text generalizing tokens with
  | case1 =>
      cases h
      cases hname
  | case2 offset c rest hspace ih => exact ih h hname
  | case3 => cases h
  | case4 offset c rest hspace =>
      rename_i token htoken more hmore ih
      cases h
      rw [kinds_cons] at hname
      rcases List.mem_cons.mp hname with rfl | hname
      · exact isName_of_read htoken
      · exact ih hmore hname
  | case5 => cases h

/-! ### Decimals -/

/-- Digits, and perhaps a point with digits after it. -/
def IsDecimal (written : List Char) : Prop :=
  ∃ whole fraction : List Char, whole ≠ [] ∧ (∀ c ∈ whole, c.isDigit) ∧
    (∀ c ∈ fraction, c.isDigit) ∧ (written = whole ∨ written = whole ++ '.' :: fraction)

/-- A decimal does not go on: neither with a digit, an exponent nor a point. -/
def EndsDecimal (rest : List Char) : Prop := Stops isWordChar rest ∧ ∀ c ∈ rest.head?, c ≠ '.'

theorem isWordChar_of_isDigit {c : Char} (h : c.isDigit) : isWordChar c := by
  simp [isWordChar, Char.isAlphanum, h]

theorem EndsDecimal.stops_digit {rest : List Char} (h : EndsDecimal rest) :
    Stops Char.isDigit rest := by
  intro c hc
  by_contra hdigit
  rw [Bool.not_eq_false] at hdigit
  have := h.1 c hc
  rw [isWordChar_of_isDigit hdigit] at this
  cases this

theorem EndsDecimal.exponentPart_eq {rest : List Char} (h : EndsDecimal rest) :
    Numeral.exponentPart rest = [] := by
  cases rest with
  | nil => rfl
  | cons c rest =>
      have hword := h.1 c rfl
      simp only [Numeral.exponentPart]
      rw [if_neg]
      rintro (rfl | rfl) <;> exact absurd hword (by decide)

theorem mantissa_decimal {written rest : List Char} (hwritten : IsDecimal written)
    (hrest : EndsDecimal rest) : mantissa (written ++ rest) = written := by
  obtain ⟨whole, fraction, -, hwhole, hfraction, rfl | rfl⟩ := hwritten
  · rw [mantissa, takeWhile_append_of_stops hwhole hrest.stops_digit,
      dropWhile_append_of_stops hwhole hrest.stops_digit]
    split
    · next heq => exact absurd rfl (hrest.2 '.' rfl)
    · rfl
  · have hpoint : Stops Char.isDigit ('.' :: fraction ++ rest) := stops_cons (by decide)
    rw [mantissa, List.append_assoc, takeWhile_append_of_stops hwhole hpoint,
      dropWhile_append_of_stops hwhole hpoint]
    simp only [List.cons_append]
    rw [takeWhile_append_of_stops hfraction hrest.stops_digit]

theorem ofNumber_decimal {written rest : List Char} (hwritten : IsDecimal written)
    (hrest : EndsDecimal rest) :
    ofNumber (written ++ rest) = ⟨some (.number written), written.length⟩ := by
  rw [ofNumber, mantissa_decimal hwritten hrest, List.drop_left, hrest.exponentPart_eq,
    List.append_nil]

theorem IsDecimal.exists_cons {written : List Char} (h : IsDecimal written) :
    ∃ c more, written = c :: more ∧ c.isDigit := by
  obtain ⟨whole, fraction, hne, hwhole, -, hcases⟩ := h
  obtain ⟨c, more, rfl⟩ := List.exists_cons_of_ne_nil hne
  have hc := hwhole c List.mem_cons_self
  rcases hcases with rfl | rfl
  · exact ⟨c, more, rfl, hc⟩
  · exact ⟨c, more ++ '.' :: fraction, rfl, hc⟩

theorem IsDecimal.stops_equals {written : List Char} (h : IsDecimal written) (rest : List Char) :
    Stops (· == '=') (written ++ rest) := by
  obtain ⟨c, more, rfl, hc⟩ := h.exists_cons
  refine stops_cons ?_
  rw [beq_eq_false_iff_ne]
  rintro rfl
  exact absurd hc (by decide)

theorem scansTo_decimal {written rest : List Char} {these : List FormulaToken}
    (hwritten : IsDecimal written) (hrest : EndsDecimal rest) (h : ScansTo rest these) :
    ScansTo (written ++ rest) (.number written :: these) := by
  have hnumber := ofNumber_decimal hwritten hrest
  obtain ⟨c, more, rfl, hc⟩ := hwritten.exists_cons
  refine scansTo_token _ _ ?_ h
  rw [TokenReading.read, if_neg (by simp [isWordStart_of_isDigit hc]),
    if_pos (by simp [startsNumber, hc])]
  exact hnumber

/-! ### Quoted text -/

/-- A character that quoted text shows as itself or behind one backslash. -/
def IsPlainChar (c : Char) : Prop := c = '\n' ∨ c = '\t' ∨ isHidden c = false

theorem quotedChar_cases {c : Char} (h : IsPlainChar c) :
    (c = '"' ∨ c = '\\' ∨ c = '\n' ∨ c = '\t') ∨ quotedChar c = [c] ∧ c ≠ '"' ∧ c ≠ '\\' := by
  by_cases hescaped : c = '"' ∨ c = '\\' ∨ c = '\n' ∨ c = '\t'
  · exact .inl hescaped
  · simp only [not_or] at hescaped
    obtain ⟨hquote, hbackslash, hbreak, htab⟩ := hescaped
    have hshown : isHidden c = false := (h.resolve_left hbreak).resolve_left htab
    refine .inr ⟨?_, hquote, hbackslash⟩
    unfold quotedChar
    split
    case h_7 => rw [hshown, if_neg Bool.false_ne_true]
    all_goals contradiction

theorem unescape_cons {c : Char} (h : c ≠ '\\') (rest : List Char) :
    unescape (c :: rest) = c :: unescape rest := by
  rw [unescape.eq_def]
  split <;> simp_all

/-- Resolving the escapes of a quoted text gives the text back. -/
theorem unescape_quotedBody {text : List Char} (h : ∀ c ∈ text, IsPlainChar c) :
    unescape (quotedBody text) = text := by
  induction text with
  | nil => rfl
  | cons c text ih =>
      obtain ⟨hc, htext⟩ := List.forall_mem_cons.mp h
      rw [quotedBody, List.flatMap_cons]
      change unescape (quotedChar c ++ quotedBody text) = c :: text
      rcases quotedChar_cases hc with hescaped | ⟨hself, -, hbackslash⟩
      · have hstep : unescape (quotedChar c ++ quotedBody text) =
            c :: unescape (quotedBody text) := by
          rcases hescaped with rfl | rfl | rfl | rfl <;> simp [quotedChar, unescape]
        rw [hstep, ih htext]
      · rw [hself, List.singleton_append, unescape_cons hbackslash, ih htext]

theorem quotedExtent_cons {quote c : Char} (hquote : c ≠ quote) (hbackslash : c ≠ '\\')
    (rest : List Char) :
    quotedExtent quote (c :: rest) =
      ((quotedExtent quote rest).1, (quotedExtent quote rest).2 + 1) := by
  rw [quotedExtent.eq_def]
  split <;> simp_all

/-- The first quote that is not behind a backslash closes a quoted text. -/
theorem quotedExtent_quotedBody {text : List Char} (h : ∀ c ∈ text, IsPlainChar c)
    (rest : List Char) :
    quotedExtent '"' (quotedBody text ++ '"' :: rest) = (true, (quotedBody text).length + 1) := by
  induction text with
  | nil => simp [quotedBody, quotedExtent]
  | cons c text ih =>
      obtain ⟨hc, htext⟩ := List.forall_mem_cons.mp h
      have hbody : quotedBody (c :: text) = quotedChar c ++ quotedBody text := List.flatMap_cons
      rw [hbody, List.append_assoc]
      rcases quotedChar_cases hc with hescaped | ⟨hself, hquote, hbackslash⟩
      · rcases hescaped with rfl | rfl | rfl | rfl <;>
          simp [quotedChar, quotedExtent, ih htext]
      · rw [hself, List.singleton_append, quotedExtent_cons hquote hbackslash, ih htext]
        rfl

theorem scansTo_quoted {text rest : List Char} {these : List FormulaToken}
    (htext : ∀ c ∈ text, IsPlainChar c) (h : ScansTo rest these) :
    ScansTo ('"' :: (quotedBody text ++ '"' :: rest)) (.text (quotedBody text) :: these) := by
  rw [← List.singleton_append (l := rest), ← List.append_assoc]
  refine scansTo_token _ _ ?_ h
  rw [TokenReading.read, if_neg (by decide), if_neg (by simp [startsNumber]), if_pos (.inl rfl),
    List.append_assoc, List.singleton_append, ofQuoted, quotedExtent_quotedBody htext]
  simp

/-! ### Signs -/

theorem sign_text_cases (s : Sign) :
    (∃ c, s.text.toList = [c] ∧ sign? c = some s) ∨
      ∃ c d, s.text.toList = [c, d] ∧ doubleSign? c d = some s := by
  cases s <;> first
    | exact .inl ⟨_, rfl, rfl⟩
    | exact .inr ⟨_, _, rfl, rfl⟩

theorem read_sign {c : Char} {s : Sign} (hsign : sign? c = some s) {rest : List Char}
    (hdouble : ∀ d ∈ rest.head?, doubleSign? c d = none)
    (hdigit : c = '.' → Stops Char.isDigit rest) : read c rest = ⟨some (.sign s), 1⟩ := by
  have hofSign : ofSign c rest = ⟨some (.sign s), 1⟩ := by
    rw [ofSign, Option.bind_eq_none_iff.mpr hdouble, hsign]
    rfl
  obtain ⟨hword, hdecimal, hquote⟩ :
      isWordStart c = false ∧ c.isDigit = false ∧ ¬ (c = '"' ∨ c = '\'') := by
    unfold sign? at hsign
    split at hsign <;> first
      | exact ⟨rfl, rfl, by decide⟩
      | cases hsign
  have hnumber : startsNumber c rest = false := by
    by_cases hpoint : c = '.'
    · cases rest with
      | nil => simp [startsNumber, hdecimal]
      | cons d rest => simpa [startsNumber, hdecimal, hpoint] using hdigit hpoint d rfl
    · simp [startsNumber, hdecimal, hpoint]
  rw [TokenReading.read, hword, if_neg Bool.false_ne_true, hnumber, if_neg Bool.false_ne_true,
    if_neg hquote, hofSign]

theorem read_doubleSign {c d : Char} {s : Sign} (hsign : doubleSign? c d = some s)
    (rest : List Char) : read c (d :: rest) = ⟨some (.sign s), 2⟩ := by
  unfold doubleSign? at hsign
  split at hsign <;> cases hsign <;> rfl

theorem doubleSign?_eq_none {c d : Char} {s : Sign} (hc : sign? c = some s) (hd : d ≠ '=') :
    doubleSign? c d = none := by
  unfold doubleSign?
  split <;> simp_all [sign?]

/-- A sign other than the point is a token unless an equals sign follows. -/
theorem scansTo_sign {s : Sign} (hs : s ≠ .dot) {rest : List Char} {these : List FormulaToken}
    (hequals : Stops (· == '=') rest) (h : ScansTo rest these) :
    ScansTo (s.text.toList ++ rest) (.sign s :: these) := by
  rcases sign_text_cases s with ⟨c, htext, hsign⟩ | ⟨c, d, htext, hsign⟩
  · have hpoint : c ≠ '.' := by
      rintro rfl
      exact hs (Option.some.inj hsign).symm
    rw [htext]
    exact scansTo_token c []
      (read_sign hsign
      (fun d hd => doubleSign?_eq_none hsign (beq_eq_false_iff_ne.mp (hequals d hd))) hpoint.elim) h
  · rw [htext]
    exact scansTo_token c [d] (read_doubleSign hsign rest) h

/-- A point is a token unless a digit follows. -/
theorem scansTo_dot {rest : List Char} {these : List FormulaToken}
    (hdigit : Stops Char.isDigit rest) (h : ScansTo rest these) :
    ScansTo ('.' :: rest) (.sign .dot :: these) :=
  scansTo_token '.' [] (read_sign rfl (fun _ _ => rfl) fun _ => hdigit) h

/-- Brackets and separators are tokens whatever follows. -/
theorem scansTo_mark {c : Char} {s : Sign} (hc : c ∈ ['(', ')', '[', ']', ',', '?', ':'])
    (hsign : sign? c = some s) {rest : List Char} {these : List FormulaToken}
    (h : ScansTo rest these) : ScansTo (c :: rest) (.sign s :: these) := by
  have hdouble : ∀ d, doubleSign? c d = none := by
    intro d
    simp only [List.mem_cons, List.not_mem_nil, or_false] at hc
    rcases hc with rfl | rfl | rfl | rfl | rfl | rfl | rfl <;> rfl
  have hpoint : c ≠ '.' := by
    rintro rfl
    exact absurd hc (by decide)
  exact scansTo_token c [] (read_sign hsign (fun d _ => hdouble d) hpoint.elim) h

end FormulaScan

end PatternMarkup
