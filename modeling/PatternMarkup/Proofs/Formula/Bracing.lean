import Mathlib.Data.List.TakeWhile
import PatternMarkup.Formula.Template
import PatternMarkup.Proofs.Formula.Folding
import PatternMarkup.Proofs.Formula.GrammarReading
/-!
Formulas between braces. A text that can be cut into tokens has braces only in quoted text, so the
brace put after it closes the one put before it. Where the text stands in a larger one makes no
difference to the value of the formula read from it.
-/

namespace PatternMarkup

open FormulaParser (kinds kinds_cons)

/-! ### Braces around tokens -/

/-- A brace after the text closes one before it. -/
def ClosesAfter (text : List Char) : Prop :=
  ∀ after, closeBrace 0 none (text ++ '}' :: after) = some (text, after)

/-- Neither a quote nor a brace. -/
def IsBare (c : Char) : Prop := c ≠ '"' ∧ c ≠ '\'' ∧ c ≠ '{' ∧ c ≠ '}'

theorem isBare_of_class {p : Char → Bool} {c : Char} (hc : p c = true)
    (hquotes : p '"' = false ∧ p '\'' = false) (hbraces : p '{' = false ∧ p '}' = false) :
    IsBare c := by
  have hne : ∀ d, p d = false → c ≠ d := by
    rintro d hd rfl
    rw [hd] at hc
    cases hc
  exact ⟨hne _ hquotes.1, hne _ hquotes.2, hne _ hbraces.1, hne _ hbraces.2⟩

theorem closesAfter_nil : ClosesAfter [] := fun _ => rfl

theorem closesAfter_cons {c : Char} {rest : List Char} (hc : IsBare c) (h : ClosesAfter rest) :
    ClosesAfter (c :: rest) := by
  obtain ⟨hdouble, hsingle, hopen, hclose⟩ := hc
  intro after
  rw [List.cons_append, closeBrace]
  simp only [hdouble, hsingle, hopen, hclose, or_self, if_false]
  rw [h after]
  rfl

theorem closesAfter_append {front rest : List Char} (hfront : ∀ c ∈ front, IsBare c)
    (h : ClosesAfter rest) : ClosesAfter (front ++ rest) := by
  induction front with
  | nil => exact h
  | cons c front ih =>
      have hrest := ih fun d hd => hfront d (List.mem_cons_of_mem c hd)
      exact closesAfter_cons (hfront c List.mem_cons_self) hrest

theorem ne_backslash {c : Char} {rest : List Char} (hend : c = '\\' → rest = [] → False)
    (hescape : ∀ d more, c = '\\' → rest = d :: more → False) : c ≠ '\\' := by
  intro hc
  cases rest with
  | nil => exact hend hc rfl
  | cons d more => exact hescape d more hc rfl

theorem closeBrace_quoted {depth : Nat} {quote c : Char} {rest : List Char} (hc : c ≠ '\\') :
    closeBrace depth (some quote) (c :: rest) =
      addFront c (closeBrace depth (if c = quote then none else some quote) rest) := by
  rw [closeBrace.eq_def]
  simp only [hc, if_false]
  split <;> rfl

/-- Quoted text ends for a brace where it ends for a token. -/
theorem closeBrace_of_quotedExtent {quote : Char} {text : List Char} {count : Nat}
    (h : TokenReading.quotedExtent quote text = (true, count))
    (hrest : ClosesAfter (text.drop count)) (after : List Char) :
    closeBrace 0 (some quote) (text ++ '}' :: after) = some (text, after) := by
  fun_induction TokenReading.quotedExtent quote text generalizing count with
  | case1 => cases h
  | case2 => cases h
  | case3 => cases h
  | case4 c rest hc closed n hext ih =>
      obtain ⟨rfl, rfl⟩ := Prod.mk.inj h
      have hinner := ih hext hrest
      simp [closeBrace, hinner, addFront]
  | case5 rest hend hescape =>
      obtain ⟨-, rfl⟩ := Prod.mk.inj h
      have hslash := ne_backslash hend hescape
      have hinner : closeBrace 0 none (rest ++ '}' :: after) = some (rest, after) := hrest after
      rw [List.cons_append, closeBrace_quoted hslash, if_pos rfl, hinner]
      rfl
  | case6 c rest hend hescape hc closed n hext ih =>
      obtain ⟨rfl, rfl⟩ := Prod.mk.inj h
      have hslash := ne_backslash hend hescape
      have hinner := ih hext hrest
      rw [List.cons_append, closeBrace_quoted hslash, if_neg hc, hinner]
      rfl

/-! ### Texts of tokens -/

theorem closesAfter_take {c : Char} {rest : List Char} {count : Nat} (hc : IsBare c)
    (htaken : ∀ d ∈ rest.take count, IsBare d) (hrest : ClosesAfter (rest.drop count)) :
    ClosesAfter (c :: rest) := by
  rw [← List.take_append_drop count rest]
  exact closesAfter_cons hc (closesAfter_append htaken hrest)

/-- The characters that a token takes after the first one are written in it. -/
theorem mem_of_mem_take {written rest : List Char} {c d : Char} (h : written <+: c :: rest)
    (hd : d ∈ rest.take (written.length - 1)) : d ∈ written := by
  cases written with
  | nil => simp at hd
  | cons first more =>
      obtain ⟨rfl, tail, rfl⟩ := List.cons_prefix_cons.mp h
      simp only [List.length_cons, Nat.add_sub_cancel, List.take_left] at hd
      exact List.mem_cons_of_mem first hd

theorem closesAfter_written {written rest : List Char} {c : Char} (h : written <+: c :: rest)
    (hc : IsBare c) (hwritten : ∀ d ∈ written, IsBare d)
    (hrest : ClosesAfter (rest.drop (written.length - 1))) : ClosesAfter (c :: rest) := by
  refine closesAfter_take hc ?_ hrest
  intro d hd
  exact hwritten d (mem_of_mem_take h hd)

theorem isBare_wordChar {c : Char} (h : TokenReading.isWordChar c = true) : IsBare c :=
  isBare_of_class h (by decide) (by decide)

theorem isBare_digit {c : Char} (h : c.isDigit = true) : IsBare c :=
  isBare_of_class h (by decide) (by decide)

theorem mantissa_isPrefix (text : List Char) : TokenReading.mantissa text <+: text := by
  unfold TokenReading.mantissa
  have htext : text.takeWhile Char.isDigit ++ text.dropWhile Char.isDigit = text :=
    List.takeWhile_append_dropWhile
  split
  · rename_i rest hrest
    rw [hrest] at htext
    refine ⟨rest.dropWhile Char.isDigit, ?_⟩
    rw [List.append_assoc, List.cons_append, List.takeWhile_append_dropWhile]
    exact htext
  · exact ⟨_, htext⟩

theorem isBare_takeWhile_digit {text : List Char} {c : Char}
    (h : c ∈ text.takeWhile Char.isDigit) : IsBare c :=
  isBare_digit (List.mem_takeWhile_imp h)

theorem isBare_mantissa {text : List Char} {c : Char} (h : c ∈ TokenReading.mantissa text) :
    IsBare c := by
  unfold TokenReading.mantissa at h
  split at h
  · rcases List.mem_append.mp h with h | h
    · exact isBare_takeWhile_digit h
    · rcases List.mem_cons.mp h with rfl | h
      · exact ⟨by decide, by decide, by decide, by decide⟩
      · exact isBare_takeWhile_digit h
  · exact isBare_takeWhile_digit h

theorem append_isPrefix {front more text : List Char} (hfront : front <+: text)
    (hmore : more <+: text.drop front.length) : front ++ more <+: text := by
  rw [← List.prefix_append_right_inj front, List.prefix_iff_eq_append.mp hfront] at hmore
  exact hmore

theorem signPart_isPrefix (text : List Char) : Numeral.signPart text <+: text := by
  unfold Numeral.signPart
  split
  · exact ⟨_, rfl⟩
  · exact ⟨_, rfl⟩
  · exact List.nil_prefix

theorem isBare_signPart {text : List Char} {c : Char} (h : c ∈ Numeral.signPart text) :
    IsBare c := by
  unfold Numeral.signPart at h
  split at h
  · obtain rfl := List.mem_singleton.mp h
    exact ⟨by decide, by decide, by decide, by decide⟩
  · obtain rfl := List.mem_singleton.mp h
    exact ⟨by decide, by decide, by decide, by decide⟩
  · cases h

theorem exponentPart_isPrefix (text : List Char) : Numeral.exponentPart text <+: text := by
  cases text with
  | nil => exact List.nil_prefix
  | cons e rest =>
      simp only [Numeral.exponentPart]
      split
      · split
        · exact List.nil_prefix
        · rw [List.cons_append, List.cons_prefix_cons]
          exact ⟨rfl, append_isPrefix (signPart_isPrefix rest) (List.takeWhile_prefix _)⟩
      · exact List.nil_prefix

theorem isBare_exponentPart {text : List Char} {c : Char} (h : c ∈ Numeral.exponentPart text) :
    IsBare c := by
  cases text with
  | nil => cases h
  | cons e rest =>
      simp only [Numeral.exponentPart] at h
      split at h
      · rename_i he
        split at h
        · cases h
        · rcases List.mem_append.mp h with h | h
          · rcases List.mem_cons.mp h with rfl | h
            · rcases he with rfl | rfl
              · exact ⟨by decide, by decide, by decide, by decide⟩
              · exact ⟨by decide, by decide, by decide, by decide⟩
            · exact isBare_signPart h
          · exact isBare_takeWhile_digit h
      · cases h

theorem closesAfter_number {c : Char} {rest : List Char}
    (hstart : TokenReading.startsNumber c rest = true)
    (hrest : ClosesAfter (rest.drop ((TokenReading.ofNumber (c :: rest)).count - 1))) :
    ClosesAfter (c :: rest) := by
  have hc : IsBare c := by
    rw [TokenReading.startsNumber, Bool.or_eq_true, Bool.and_eq_true, beq_iff_eq] at hstart
    rcases hstart with hdigit | ⟨rfl, _⟩
    · exact isBare_digit hdigit
    · exact ⟨by decide, by decide, by decide, by decide⟩
  refine closesAfter_written (append_isPrefix (mantissa_isPrefix _) (exponentPart_isPrefix _)) hc ?_ hrest
  intro d hd
  rcases List.mem_append.mp hd with hd | hd
  · exact isBare_mantissa hd
  · exact isBare_exponentPart hd

theorem closesAfter_word {c : Char} {rest : List Char} (hc : TokenReading.isWordStart c = true)
    (hrest : ClosesAfter (rest.drop (rest.takeWhile TokenReading.isWordChar).length)) :
    ClosesAfter (c :: rest) := by
  have hprefix : c :: rest.takeWhile TokenReading.isWordChar <+: c :: rest :=
    List.cons_prefix_cons.mpr ⟨rfl, List.takeWhile_prefix _⟩
  have hbare : IsBare c := isBare_of_class hc (by decide) (by decide)
  refine closesAfter_written hprefix hbare ?_ hrest
  intro d hd
  rcases List.mem_cons.mp hd with rfl | hd
  · exact hbare
  · exact isBare_wordChar (List.mem_takeWhile_imp hd)

theorem closesAfter_quoted {quote : Char} {rest : List Char} {token : FormulaToken}
    (hquote : quote = '"' ∨ quote = '\'')
    (htoken : (TokenReading.ofQuoted quote rest).token = some token)
    (hrest : ClosesAfter (rest.drop ((TokenReading.ofQuoted quote rest).count - 1))) :
    ClosesAfter (quote :: rest) := by
  unfold TokenReading.ofQuoted at htoken hrest
  split at htoken
  rename_i closed count hext
  rw [hext] at hrest
  cases closed with
  | false => cases htoken
  | true =>
      intro after
      have hclose := closeBrace_of_quotedExtent hext hrest after
      rw [List.cons_append, closeBrace]
      simp only [hquote, if_true, hclose]
      rfl

theorem isBare_of_sign? {c : Char} {s : Sign} (h : TokenReading.sign? c = some s) : IsBare c := by
  refine isBare_of_class (p := fun c => (TokenReading.sign? c).isSome) ?_ ⟨rfl, rfl⟩ ⟨rfl, rfl⟩
  rw [h]
  rfl

theorem isBare_of_doubleSign? {c d : Char} {s : Sign} (h : TokenReading.doubleSign? c d = some s) :
    IsBare c ∧ IsBare d := by
  unfold TokenReading.doubleSign? at h
  split at h <;> first
    | exact ⟨⟨by decide, by decide, by decide, by decide⟩, by decide, by decide, by decide, by decide⟩
    | cases h

theorem closesAfter_sign {c : Char} {rest : List Char} {token : FormulaToken}
    (htoken : (TokenReading.ofSign c rest).token = some token)
    (hrest : ClosesAfter (rest.drop ((TokenReading.ofSign c rest).count - 1))) :
    ClosesAfter (c :: rest) := by
  unfold TokenReading.ofSign at htoken hrest
  split at htoken
  · rename_i s hs
    obtain ⟨d, hd, hdouble⟩ := Option.bind_eq_some_iff.mp hs
    obtain ⟨hc, hd'⟩ := isBare_of_doubleSign? hdouble
    obtain ⟨more, rfl⟩ := List.head?_eq_some_iff.mp hd
    rw [hs] at hrest
    exact closesAfter_cons hc (closesAfter_cons hd' hrest)
  · rename_i hs
    obtain ⟨s, hsign, _⟩ := Option.map_eq_some_iff.mp htoken
    rw [hs] at hrest
    exact closesAfter_cons (isBare_of_sign? hsign) hrest

theorem closesAfter_read {c : Char} {rest : List Char} {token : FormulaToken}
    (htoken : (TokenReading.read c rest).token = some token)
    (hrest : ClosesAfter (rest.drop ((TokenReading.read c rest).count - 1))) :
    ClosesAfter (c :: rest) := by
  unfold TokenReading.read at htoken hrest
  split at htoken
  · rename_i hc
    rw [if_pos hc] at hrest
    exact closesAfter_word hc hrest
  · rename_i hc
    rw [if_neg hc] at hrest
    split at htoken
    · rename_i hstart
      rw [if_pos hstart] at hrest
      exact closesAfter_number hstart hrest
    · rename_i hstart
      rw [if_neg hstart] at hrest
      split at htoken
      · rename_i hquote
        rw [if_pos hquote] at hrest
        exact closesAfter_quoted hquote htoken hrest
      · rename_i hquote
        rw [if_neg hquote] at hrest
        exact closesAfter_sign htoken hrest

/-- A brace closes after a text of tokens. The induction is on the text, one token at a time. -/
theorem closesAfter_of_scan {offset : Nat} {text : List Char} {tokens : List PlacedToken}
    (h : scanFormula offset text = .ok tokens) : ClosesAfter text := by
  fun_induction scanFormula offset text generalizing tokens with
  | case1 => exact closesAfter_nil
  | case2 offset c rest hspace ih =>
      exact closesAfter_cons (isBare_of_class hspace (by decide) (by decide)) (ih h)
  | case3 => cases h
  | case4 =>
      rename_i htoken more hmore ih
      exact closesAfter_read htoken (ih hmore)
  | case5 => cases h

theorem trim_braces (text : List Char) :
    trim ('{' :: (text ++ ['}'])) = '{' :: (text ++ ['}']) := by
  have hstart : trimStart ('{' :: (text ++ ['}'])) = '{' :: (text ++ ['}']) :=
    List.dropWhile_cons_of_neg (by decide)
  have hreverse : ('{' :: (text ++ ['}'])).reverse = '}' :: ('{' :: text).reverse := by simp
  rw [trim, hstart, trimEnd, hreverse, List.dropWhile_cons_of_neg (by decide), ← hreverse,
    List.reverse_reverse]

/-- Of a text between braces with nothing before and after them, the formula is all the rest. -/
theorem braced?_of_closesAfter {text : List Char} (h : ClosesAfter text) (offset : Nat) :
    (Fragment.mk offset ('{' :: (text ++ ['}']))).braced? = some ⟨offset + 1, text⟩ := by
  have hfront : ('{' :: (text ++ ['}'])).takeWhile isBlank = [] :=
    List.takeWhile_cons_of_neg (by decide)
  rw [Fragment.braced?]
  simp only [trim_braces, hfront, h [], byteLength_nil, Nat.add_zero]

/-! ### Formulas in another place -/

theorem scanFormula_kinds {offset : Nat} {text : List Char} {tokens : List PlacedToken}
    (h : scanFormula offset text = .ok tokens) (offset' : Nat) :
    ∃ tokens', scanFormula offset' text = .ok tokens' ∧ kinds tokens' = kinds tokens := by
  fun_induction scanFormula offset text generalizing tokens offset' with
  | case1 =>
      cases h
      exact ⟨[], by rw [scanFormula], rfl⟩
  | case2 offset c rest hspace ih =>
      rw [scanFormula, if_pos hspace]
      exact ih h _
  | case3 => cases h
  | case4 offset c rest hspace =>
      rename_i token htoken more hmore ih
      cases h
      let next := offset' + byteLength ((c :: rest).take (TokenReading.read c rest).count)
      obtain ⟨tokens, hscan, hkinds⟩ := ih hmore next
      refine ⟨⟨token, ⟨offset', next⟩⟩ :: tokens, ?_, by rw [kinds_cons, kinds_cons, hkinds]⟩
      rw [scanFormula, if_neg hspace]
      simp only
      rw [htoken]
      simp only
      rw [hscan]
  | case5 => cases h

variable {α : Type} [Number α]

/-- A formula that is read from a text is read from it anywhere, its ranges aside. -/
theorem Ast.read_elsewhere {offset : Nat} {text : List Char} {ast : Ast α}
    (h : Ast.read ⟨offset, text⟩ = .ok ast) (offset' : Nat) :
    ∃ ast' : Ast α, Ast.read ⟨offset', text⟩ = .ok ast' ∧
      ast'.withoutRanges = ast.withoutRanges := by
  obtain ⟨tokens, htokens, hwhole⟩ := FormulaParser.exists_of_bind_eq_ok h
  obtain ⟨tokens', htokens', hkinds⟩ := scanFormula_kinds htokens offset'
  obtain ⟨d, hd, hast⟩ := FormulaParser.whole_sound hwhole
  obtain ⟨ast', hwhole', hast'⟩ :=
    FormulaParser.whole_complete (α := α) (Fragment.mk offset' text).stop (hd.trans hkinds.symm)
  refine ⟨ast', ?_, hast'.trans hast⟩
  rw [Ast.read, Fragment.tokens, htokens']
  exact hwhole'

namespace Ast

variable {env : Environment α}

mutual

theorem evaluateWith_withoutRanges : (ast : Ast α) →
    ast.withoutRanges.evaluateWith env = ast.evaluateWith env
  | literal value range => by rw [withoutRanges, evaluateWith, evaluateWith]
  | name n range => by rw [withoutRanges, evaluateWith, evaluateWith]
  | list items range => by
      rw [withoutRanges, evaluateWith, evaluateWith,
        (sameValues_allWithoutRanges items).sameResults.evaluateAll_eq]
  | unary op operand range => by
      rw [withoutRanges, evaluateWith, evaluateWith, evaluateWith_withoutRanges operand]
  | binary op left right range => by
      rw [withoutRanges, evaluateWith, evaluateWith, evaluateWith_withoutRanges left,
        evaluateWith_withoutRanges right]
  | conditional condition then_ else_ range => by
      rw [withoutRanges, evaluateWith, evaluateWith, evaluateWith_withoutRanges condition,
        evaluateWith_withoutRanges then_, evaluateWith_withoutRanges else_]
  | call function arguments range => by
      have harguments := (sameValues_allWithoutRanges arguments).sameResults
      rw [withoutRanges, harguments.evaluateWith_call rfl, evaluateWith, evaluateWith]
  | member object m range => by
      rw [withoutRanges, evaluateWith, evaluateWith, evaluateWith_withoutRanges object]
  | index object i range => by
      rw [withoutRanges, evaluateWith, evaluateWith, evaluateWith_withoutRanges object,
        evaluateWith_withoutRanges i]
  | interpolation parts range => by
      rw [withoutRanges, evaluateWith, evaluateWith,
        (sameValues_allWithoutRanges parts).sameResults.evaluateText_eq]

theorem sameValues_allWithoutRanges : (asts : List (Ast α)) →
    SameValues env (allWithoutRanges asts) asts
  | [] => .nil
  | ast :: rest => .cons (evaluateWith_withoutRanges ast) (sameValues_allWithoutRanges rest)

end

/-- The value of a formula does not depend on where it was read. -/
theorem evaluate_of_withoutRanges_eq {first second : Ast α}
    (h : first.withoutRanges = second.withoutRanges) (s : Scope α) :
    first.evaluate s = second.evaluate s := by
  rw [evaluate, evaluate, ← evaluateWith_withoutRanges first, h, evaluateWith_withoutRanges]

end Ast

end PatternMarkup
