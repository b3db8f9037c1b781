import PatternMarkup.Proofs.Formula.Scanning
import PatternMarkup.Proofs.Markup.Tiling
/-!
Cutting a text between its tokens. A token is found from its own characters alone, so a text that
is cut where a token starts or ends keeps the tokens it still holds, at the places they had.
-/

namespace PatternMarkup

namespace FormulaScan

open FormulaParser TokenReading

/-! ### Finding the same before a cut -/

/-- What is found at the start of a text is found again when the text is cut behind it. -/
def IsLocal (find : List Char → List Char) : Prop :=
  ∀ ⦃text cut⦄, find text <+: cut → cut <+: text → find cut = find text

theorem isLocal_takeWhile (keep : Char → Bool) : IsLocal (List.takeWhile keep) := by
  rintro text cut hfound ⟨after, rfl⟩
  induction cut with
  | nil => exact (List.prefix_nil.mp hfound).symm
  | cons c cut ih =>
      rw [List.cons_append] at hfound ⊢
      by_cases hc : keep c
      · rw [List.takeWhile_cons_of_pos hc] at hfound ⊢
        rw [List.takeWhile_cons_of_pos hc, ih (List.cons_prefix_cons.mp hfound).2]
      · rw [List.takeWhile_cons_of_neg hc, List.takeWhile_cons_of_neg hc]

theorem takeWhile_prefix_takeWhile (keep : Char → Bool) {cut text : List Char}
    (h : cut <+: text) : cut.takeWhile keep <+: text.takeWhile keep := by
  obtain ⟨after, rfl⟩ := h
  rw [List.takeWhile_append]
  split
  case isTrue => exact (List.takeWhile_prefix keep).trans (List.prefix_append _ _)
  case isFalse => exact List.prefix_rfl

/-- Two texts that go on after a common start agree on its digits. -/
theorem dropWhile_prefix_dropWhile {keep : Char → Bool} {cut text : List Char}
    (hwhole : cut.takeWhile keep = text.takeWhile keep) (h : cut <+: text) :
    cut.dropWhile keep <+: text.dropWhile keep := by
  rw [← List.prefix_append_right_inj (text.takeWhile keep), List.takeWhile_append_dropWhile,
    ← hwhole, List.takeWhile_append_dropWhile]
  exact h

theorem isLocal_mantissa : IsLocal mantissa := by
  intro text cut hfound hcut
  have hwhole : cut.takeWhile Char.isDigit = text.takeWhile Char.isDigit := by
    refine isLocal_takeWhile _ (List.IsPrefix.trans ?_ hfound) hcut
    unfold mantissa
    split
    · exact List.prefix_append _ _
    · exact List.prefix_rfl
  have hlater := dropWhile_prefix_dropWhile hwhole hcut
  unfold mantissa at hfound ⊢
  rw [hwhole]
  split at hfound
  case h_1 fraction hpoint =>
    -- The point is found, so the cut is behind it.
    rw [← List.takeWhile_append_dropWhile (p := Char.isDigit) (l := cut), hwhole,
      List.prefix_append_right_inj] at hfound
    obtain ⟨_ | ⟨c, digits⟩, hdigits⟩ : ∃ later, cut.dropWhile Char.isDigit = later := ⟨_, rfl⟩
    · rw [hdigits] at hfound
      cases List.prefix_nil.mp hfound
    · rw [hdigits] at hfound hlater ⊢
      rw [hpoint] at hlater
      obtain ⟨rfl, hfraction⟩ := List.cons_prefix_cons.mp hfound
      have hsame := isLocal_takeWhile Char.isDigit hfraction (List.cons_prefix_cons.mp hlater).2
      simp only [hsame]
  case h_2 hpoint =>
    split
    case h_1 fraction hcutPoint =>
      obtain ⟨after, hafter⟩ := hlater
      rw [hcutPoint, List.cons_append] at hafter
      exact absurd hafter.symm (hpoint _)
    case h_2 => rfl

theorem signPart_of_cut {cut text : List Char} (hcut : cut ≠ []) (h : cut <+: text) :
    Numeral.signPart cut = Numeral.signPart text := by
  obtain ⟨c, cut, rfl⟩ := List.exists_cons_of_ne_nil hcut
  obtain ⟨after, rfl⟩ := h
  unfold Numeral.signPart
  rw [List.cons_append]
  split <;> simp_all

theorem drop_prefix_drop {cut text : List Char} (h : cut <+: text) (n : Nat) :
    cut.drop n <+: text.drop n := by
  obtain ⟨after, rfl⟩ := h
  rw [List.drop_append]
  exact List.prefix_append _ _

/-- The digits of an exponent, behind its sign. -/
def exponentDigits (text : List Char) : List Char :=
  (text.drop (Numeral.signPart text).length).takeWhile Char.isDigit

theorem exponentPart_cons (e : Char) (rest : List Char) :
    Numeral.exponentPart (e :: rest) =
      if (e = 'e' ∨ e = 'E') ∧ exponentDigits rest ≠ [] then
        e :: (Numeral.signPart rest ++ exponentDigits rest)
      else [] := by
  by_cases he : e = 'e' ∨ e = 'E' <;> by_cases hdigits : exponentDigits rest = [] <;>
    simp_all [Numeral.exponentPart, exponentDigits]

theorem exponentDigits_of_cut {cut text : List Char} (h : cut <+: text) :
    exponentDigits cut <+: exponentDigits text := by
  by_cases hcut : cut = []
  · rw [hcut, exponentDigits, List.drop_nil]
    exact List.nil_prefix
  · rw [exponentDigits, exponentDigits, signPart_of_cut hcut h]
    exact takeWhile_prefix_takeWhile _ (drop_prefix_drop h _)

theorem isLocal_exponentPart : IsLocal Numeral.exponentPart := by
  intro text cut hfound hcut
  rcases cut with _ | ⟨e, short⟩
  · rw [List.prefix_nil.mp hfound, Numeral.exponentPart]
  rcases text with _ | ⟨_, rest⟩
  · cases List.prefix_nil.mp hcut
  obtain ⟨rfl, hshort⟩ := List.cons_prefix_cons.mp hcut
  rw [exponentPart_cons] at hfound
  rw [exponentPart_cons, exponentPart_cons]
  split at hfound
  case isFalse hnone =>
    have hcutNone : ¬ ((e = 'e' ∨ e = 'E') ∧ exponentDigits short ≠ []) := by
      rintro ⟨he, hdigits⟩
      refine hnone ⟨he, fun hrest => hdigits ?_⟩
      exact List.prefix_nil.mp (hrest ▸ exponentDigits_of_cut hshort)
    rw [if_neg hnone, if_neg hcutNone]
  case isTrue hsome =>
    have hwritten := (List.cons_prefix_cons.mp hfound).2
    have hne : short ≠ [] := by
      rintro rfl
      exact hsome.2 (List.append_eq_nil_iff.mp (List.prefix_nil.mp hwritten)).2
    have hsign := signPart_of_cut hne hshort
    have hdigits : exponentDigits short = exponentDigits rest := by
      rw [exponentDigits, exponentDigits, hsign]
      refine isLocal_takeWhile _ ?_ (drop_prefix_drop hshort _)
      obtain ⟨after, hafter⟩ := hwritten
      rw [← hafter, List.append_assoc, List.drop_left]
      exact List.prefix_append _ _
    rw [hdigits, hsign]

/-! ### Tokens before a cut -/

/-- A token at the start of a text is read from the characters written for it, whatever is left
of the text behind them. -/
def ReadsBefore (c : Char) (rest : List Char) (token : FormulaToken) : Prop :=
  ∃ written later, rest = written ++ later ∧
    ∀ cut, cut <+: later → read c (written ++ cut) = ⟨some token, written.length + 1⟩

theorem stops_of_cut {keep : Char → Bool} {cut text : List Char} (h : Stops keep text)
    (hcut : cut <+: text) : Stops keep cut := by
  obtain ⟨after, rfl⟩ := hcut
  rcases cut with _ | ⟨c, cut⟩
  · exact stops_nil keep
  · exact stops_cons (h c rfl)

theorem readsBefore_word {c : Char} {rest : List Char} (hc : isWordStart c) :
    ReadsBefore c rest (ofWord (c :: rest.takeWhile isWordChar)) := by
  refine ⟨rest.takeWhile isWordChar, rest.dropWhile isWordChar,
    List.takeWhile_append_dropWhile.symm, fun cut hcut => ?_⟩
  have hstops : Stops isWordChar (rest.dropWhile isWordChar) := by
    intro d hd
    have := List.head?_dropWhile_not isWordChar rest
    rw [hd] at this
    simpa using this
  rw [TokenReading.read, if_pos hc, takeWhile_append_of_stops
    (fun d hd => List.mem_takeWhile_imp hd) (stops_of_cut hstops hcut)]
  rfl

/-- A number starts with its first character and, if that is a point, a digit after it. -/
theorem mantissa_of_startsNumber {c : Char} {rest : List Char} (h : startsNumber c rest) :
    ∃ digits, mantissa (c :: rest) = c :: digits ∧ ∀ more, startsNumber c (digits ++ more) := by
  rw [startsNumber, Bool.or_eq_true, Bool.and_eq_true, beq_iff_eq] at h
  by_cases hc : c.isDigit
  · refine ⟨(mantissa (c :: rest)).tail, ?_, fun more => by rw [startsNumber, hc, Bool.true_or]⟩
    unfold mantissa
    rw [List.takeWhile_cons_of_pos hc]
    split <;> rfl
  · obtain ⟨rfl, hdigit⟩ := h.resolve_left hc
    rcases rest with _ | ⟨d, rest⟩
    · cases hdigit
    have hd : d.isDigit := hdigit
    refine ⟨d :: rest.takeWhile Char.isDigit, ?_, fun more => ?_⟩
    · simp [mantissa, hc, hd]
    · simp [startsNumber, hd]

theorem ofNumber_of_cut {text : List Char} {cut : List Char}
    (hfound : mantissa text ++ Numeral.exponentPart (text.drop (mantissa text).length) <+: cut)
    (hcut : cut <+: text) : ofNumber cut = ofNumber text := by
  have hmantissa : mantissa cut = mantissa text :=
    isLocal_mantissa ((List.prefix_append _ _).trans hfound) hcut
  have hexponent : Numeral.exponentPart (cut.drop (mantissa text).length) =
      Numeral.exponentPart (text.drop (mantissa text).length) := by
    refine isLocal_exponentPart ?_ (drop_prefix_drop hcut _)
    obtain ⟨after, rfl⟩ := hfound
    rw [List.append_assoc, List.drop_left]
    exact List.prefix_append _ _
  rw [ofNumber, ofNumber, hmantissa, hexponent]

theorem readsBefore_number {c : Char} {rest : List Char} {token : FormulaToken}
    (hc : isWordStart c = false) (hstart : startsNumber c rest)
    (h : (ofNumber (c :: rest)).token = some token) : ReadsBefore c rest token := by
  obtain ⟨digits, hmantissa, hgoes⟩ := mantissa_of_startsNumber hstart
  obtain ⟨exponent, hexponent⟩ :
      ∃ e, Numeral.exponentPart ((c :: rest).drop (mantissa (c :: rest)).length) = e := ⟨_, rfl⟩
  have hwritten : mantissa (c :: rest) ++ Numeral.exponentPart
      ((c :: rest).drop (mantissa (c :: rest)).length) = c :: (digits ++ exponent) := by
    rw [hexponent, hmantissa, List.cons_append]
  obtain ⟨later, hlater⟩ : c :: (digits ++ exponent) <+: c :: rest :=
    hwritten ▸ append_isPrefix (mantissa_isPrefix _) (exponentPart_isPrefix _)
  have hnumber : ofNumber (c :: rest) =
      ⟨some (.number (c :: (digits ++ exponent))), (digits ++ exponent).length + 1⟩ := by
    rw [ofNumber, hwritten, List.length_cons]
  rw [hnumber] at h
  cases h
  refine ⟨digits ++ exponent, later, (List.cons_eq_cons.mp hlater).2.symm, fun cut hcut => ?_⟩
  have hstarts : startsNumber c (digits ++ exponent ++ cut) := by
    rw [List.append_assoc]
    exact hgoes _
  rw [TokenReading.read, if_neg (by simp [hc]), if_pos hstarts, ← hnumber]
  refine ofNumber_of_cut ?_ ?_
  · rw [hwritten]
    exact List.prefix_append _ _
  · rw [← hlater, List.cons_append, List.cons_prefix_cons, List.prefix_append_right_inj]
    exact ⟨rfl, hcut⟩

/-- The quote that closes a text is found from the characters before it. -/
theorem quotedExtent_of_cut {quote : Char} {rest : List Char} {count : Nat}
    (h : quotedExtent quote rest = (true, count)) :
    ∃ body later, rest = body ++ later ∧ body.length = count ∧
      ∀ cut, quotedExtent quote (body ++ cut) = (true, count) := by
  fun_induction quotedExtent quote rest generalizing count with
  | case1 => cases h
  | case2 => cases h
  | case3 => cases h
  | case4 c rest hc closed n hext ih =>
      obtain ⟨rfl, rfl⟩ := Prod.mk.inj h
      obtain ⟨body, later, rfl, hlength, hcuts⟩ := ih hext
      refine ⟨'\\' :: c :: body, later, rfl, by simp [hlength], fun cut => ?_⟩
      simp [quotedExtent, hc, hcuts cut]
  | case5 rest hend hescape =>
      obtain ⟨-, rfl⟩ := Prod.mk.inj h
      have hslash := ne_backslash hend hescape
      refine ⟨[quote], rest, rfl, rfl, fun cut => ?_⟩
      rw [List.singleton_append, quotedExtent.eq_def]
      split <;> simp_all
  | case6 c rest hend hescape hc closed n hext ih =>
      obtain ⟨rfl, rfl⟩ := Prod.mk.inj h
      obtain ⟨body, later, rfl, hlength, hcuts⟩ := ih hext
      refine ⟨c :: body, later, rfl, by simp [hlength], fun cut => ?_⟩
      rw [List.cons_append, quotedExtent_cons hc (ne_backslash hend hescape), hcuts cut]

theorem readsBefore_quoted {c : Char} {rest : List Char} {token : FormulaToken}
    (hc : isWordStart c = false) (hnumber : startsNumber c rest = false)
    (hquote : c = '"' ∨ c = '\'') (h : (ofQuoted c rest).token = some token) :
    ReadsBefore c rest token := by
  unfold ofQuoted at h
  obtain ⟨⟨closed, count⟩, hextent⟩ : ∃ extent, quotedExtent c rest = extent := ⟨_, rfl⟩
  rw [hextent] at h
  cases closed with
  | false => cases h
  | true =>
      obtain ⟨body, later, rfl, rfl, hcuts⟩ := quotedExtent_of_cut hextent
      cases h
      refine ⟨body, later, rfl, fun cut hcut => ?_⟩
      have hdigit : c.isDigit = false := by rcases hquote with rfl | rfl <;> rfl
      have hpoint : c ≠ '.' := by rcases hquote with rfl | rfl <;> decide
      rw [TokenReading.read, if_neg (by simp [hc]), if_neg (by simp [startsNumber, hdigit, hpoint]),
        if_pos hquote, ofQuoted, hcuts cut]
      simp only [if_true]
      rw [List.take_append_of_le_length (Nat.sub_le _ _),
        List.take_append_of_le_length (Nat.sub_le _ _)]

theorem readsBefore_sign {c : Char} {rest : List Char} {token : FormulaToken}
    (hnumber : startsNumber c rest = false) (h : (ofSign c rest).token = some token) :
    ReadsBefore c rest token := by
  unfold ofSign at h
  split at h
  case h_1 s hdouble =>
    cases h
    obtain ⟨d, hd, hsign⟩ := Option.bind_eq_some_iff.mp hdouble
    obtain ⟨later, rfl⟩ := List.head?_eq_some_iff.mp hd
    exact ⟨[d], later, rfl, fun cut _ => read_doubleSign hsign cut⟩
  case h_2 hdouble =>
    obtain ⟨s, hsign, rfl⟩ := Option.map_eq_some_iff.mp h
    refine ⟨[], rest, rfl, fun cut hcut => read_sign hsign ?_ ?_⟩
    · intro d hd
      obtain ⟨after, rfl⟩ := List.head?_eq_some_iff.mp hd
      obtain ⟨more, rfl⟩ := hcut
      exact hdouble
    · rintro rfl
      refine stops_of_cut (fun d hd => ?_) hcut
      rw [startsNumber, hd] at hnumber
      simpa using hnumber

/-- A token that is read is read from its own characters. -/
theorem readsBefore_of_read {c : Char} {rest : List Char} {token : FormulaToken}
    (h : (read c rest).token = some token) : ReadsBefore c rest token := by
  unfold TokenReading.read at h
  split at h
  case isTrue hc =>
    cases h
    exact readsBefore_word hc
  case isFalse hc =>
    rw [Bool.not_eq_true] at hc
    split at h
    case isTrue hnumber => exact readsBefore_number hc hnumber h
    case isFalse hnumber =>
      rw [Bool.not_eq_true] at hnumber
      split at h
      case isTrue hquote => exact readsBefore_quoted hc hnumber hquote h
      case isFalse => exact readsBefore_sign hnumber h

/-! ### Scanning token by token -/

/-- The tokens of a text from the byte `offset` on, each read from its own characters. -/
inductive Scans : Nat → List Char → List PlacedToken → Prop
  | nil (offset : Nat) : Scans offset [] []
  | space {offset : Nat} {c : Char} {rest : List Char} {tokens : List PlacedToken}
      (hc : isSpace c) (later : Scans (offset + c.utf8Size) rest tokens) :
      Scans offset (c :: rest) tokens
  | token {offset : Nat} {c : Char} {written rest : List Char} {token : FormulaToken}
      {tokens : List PlacedToken}
      (reads : ∀ cut, cut <+: rest → read c (written ++ cut) = ⟨some token, written.length + 1⟩)
      (later : Scans (offset + byteLength (c :: written)) rest tokens) :
      Scans offset (c :: (written ++ rest))
        (⟨token, ⟨offset, offset + byteLength (c :: written)⟩⟩ :: tokens)

theorem scans_of_scanFormula {offset : Nat} {text : List Char} {tokens : List PlacedToken}
    (h : scanFormula offset text = .ok tokens) : Scans offset text tokens := by
  fun_induction scanFormula offset text generalizing tokens with
  | case1 offset =>
      cases h
      exact .nil offset
  | case2 offset c rest hspace ih => exact .space hspace (ih h)
  | case3 => cases h
  | case4 offset c rest hspace reading stop =>
      rename_i token htoken more hmore ih
      cases h
      obtain ⟨written, later, rfl, hreads⟩ := readsBefore_of_read htoken
      have hreading := hreads later List.prefix_rfl
      have hlater := ih hmore
      simp only [stop, reading, hreading, List.take_succ_cons, List.take_left,
        Nat.add_sub_cancel, List.drop_left] at hlater ⊢
      exact .token hreads hlater
  | case5 => cases h

theorem Scans.scanFormula_eq {offset : Nat} {text : List Char} {tokens : List PlacedToken}
    (h : Scans offset text tokens) : scanFormula offset text = .ok tokens := by
  induction h with
  | nil offset => rw [scanFormula]
  | space hc later ih => rw [scanFormula, if_pos hc, ih]
  | @token offset c written rest token tokens reads later ih =>
      have hreading := reads rest List.prefix_rfl
      have hspace : isSpace c = false := isSpace_of_token (by rw [hreading])
      rw [scanFormula, if_neg (by simp [hspace])]
      simp only [hreading, List.take_succ_cons, List.take_left, Nat.add_sub_cancel,
        List.drop_left, ih]

end FormulaScan

end PatternMarkup
