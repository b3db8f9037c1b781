import Mathlib
import PatternMarkup.Proofs.Markup.Print
import PatternMarkup.Proofs.Markup.ScannedPlaces
/-!
What text between tags says. The content of a text token is the source text of its span in which
every reference to a character, of at most ten characters, is replaced by that character, and in
which every maximal run of blanks has then become one space. So it is normal text, and blank exactly
if it is one space.
-/

namespace PatternMarkup

/-! ### Runs of blanks -/

/-- Whether both characters are blank or neither is. -/
def sameBlankness (c d : Char) : Bool := isBlank c == isBlank d

/-- What becomes of a run of blanks, or of a run without any. -/
def squeezeRun (run : List Char) : List Char := if run.all isBlank then [' '] else run

/-- The text with one space for every maximal run of blanks. -/
def squeezed (text : List Char) : List Char := (text.splitBy sameBlankness).flatMap squeezeRun

theorem collapseBlanks_of_unblank {c : Char} (hc : isBlank c = false) (rest : List Char) :
    collapseBlanks (c :: rest) = c :: collapseBlanks rest := by
  conv_lhs => unfold collapseBlanks
  rw [if_neg (Bool.eq_false_iff.mp hc)]

theorem collapseBlanks_of_blanks {c d : Char} (hc : isBlank c = true) (hd : isBlank d = true)
    (rest : List Char) : collapseBlanks (c :: d :: rest) = collapseBlanks (d :: rest) := by
  conv_lhs => unfold collapseBlanks
  simp only [if_pos hc, if_pos hd]

theorem collapseBlanks_of_lastBlank {c : Char} (hc : isBlank c = true) {rest : List Char}
    (hrest : ∀ d ∈ rest.head?, isBlank d = false) :
    collapseBlanks (c :: rest) = ' ' :: collapseBlanks rest := by
  conv_lhs => unfold collapseBlanks
  rw [if_pos hc]
  cases rest with
  | nil => rfl
  | cons d rest => simp only [if_neg (Bool.eq_false_iff.mp (hrest d rfl))]

theorem collapseBlanks_append_of_unblank {run : List Char} (h : ∀ c ∈ run, isBlank c = false)
    (rest : List Char) : collapseBlanks (run ++ rest) = run ++ collapseBlanks rest := by
  induction run with
  | nil => rfl
  | cons c run ih =>
      obtain ⟨hc, hrun⟩ := List.forall_mem_cons.mp h
      rw [List.cons_append, collapseBlanks_of_unblank hc, ih hrun, List.cons_append]

theorem collapseBlanks_append_of_blank {run rest : List Char} (hne : run ≠ [])
    (h : ∀ c ∈ run, isBlank c = true) (hrest : ∀ c ∈ rest.head?, isBlank c = false) :
    collapseBlanks (run ++ rest) = ' ' :: collapseBlanks rest := by
  induction run with
  | nil => exact absurd rfl hne
  | cons c run ih =>
      obtain ⟨hc, hrun⟩ := List.forall_mem_cons.mp h
      cases run with
      | nil => exact collapseBlanks_of_lastBlank hc hrest
      | cons d run =>
          have hd := hrun d List.mem_cons_self
          rw [List.cons_append, List.cons_append, collapseBlanks_of_blanks hc hd,
            ← List.cons_append, ih (List.cons_ne_nil d run) hrun]

/-- A run of one kind has blanks only, or none. -/
theorem isBlank_of_isChain {run : List Char} (h : run.IsChain fun c d => sameBlankness c d) :
    (∀ c ∈ run, isBlank c = true) ∨ ∀ c ∈ run, isBlank c = false := by
  induction run with
  | nil => exact .inl (List.forall_mem_nil _)
  | cons c run ih =>
      cases run with
      | nil =>
          cases hc : isBlank c with
          | true => exact .inl (List.forall_mem_singleton.mpr hc)
          | false => exact .inr (List.forall_mem_singleton.mpr hc)
      | cons d run =>
          obtain ⟨hsame, hrun⟩ := List.isChain_cons_cons.mp h
          have hc : isBlank c = isBlank d := eq_of_beq hsame
          rcases ih hrun with hall | hnone
          · exact .inl (List.forall_mem_cons.mpr ⟨hc.trans (hall d List.mem_cons_self), hall⟩)
          · exact .inr (List.forall_mem_cons.mpr ⟨hc.trans (hnone d List.mem_cons_self), hnone⟩)

theorem head?_flatten_of_ne_nil {run : List Char} (hne : run ≠ []) (runs : List (List Char)) :
    (run :: runs).flatten.head? = some (run.head hne) := by
  cases run with
  | nil => exact absurd rfl hne
  | cons c run => rfl

/-- Runs that take turns are collapsed one by one. -/
theorem collapseBlanks_flatten {runs : List (List Char)} (hne : [] ∉ runs)
    (hsame : ∀ run ∈ runs, run.IsChain fun c d => sameBlankness c d)
    (hturns : runs.IsChain fun a b => ∃ ha hb, sameBlankness (a.getLast ha) (b.head hb) = false) :
    collapseBlanks runs.flatten = runs.flatMap squeezeRun := by
  induction runs with
  | nil => rfl
  | cons run runs ih =>
      rw [List.mem_cons, not_or] at hne
      obtain ⟨hrun, hruns⟩ := List.forall_mem_cons.mp hsame
      have hrest := ih hne.2 hruns hturns.tail
      have hnonempty : run ≠ [] := Ne.symm hne.1
      rw [List.flatten_cons, List.flatMap_cons, ← hrest, squeezeRun]
      rcases isBlank_of_isChain hrun with hall | hnone
      · rw [if_pos (List.all_eq_true.mpr hall)]
        refine collapseBlanks_append_of_blank hnonempty hall fun c hc => ?_
        cases runs with
        | nil => cases hc
        | cons next runs =>
            obtain ⟨⟨hlast, hhead, hdiffer⟩, -⟩ := List.isChain_cons_cons.mp hturns
            rw [head?_flatten_of_ne_nil hhead] at hc
            obtain rfl := Option.some.inj hc
            have hblank := hall _ (List.getLast_mem hlast)
            simpa [sameBlankness, hblank] using hdiffer
      · obtain ⟨c, hc⟩ := List.exists_mem_of_ne_nil run hnonempty
        rw [if_neg, collapseBlanks_append_of_unblank hnone]
        intro hall
        rw [List.all_eq_true] at hall
        exact Bool.false_ne_true ((hnone c hc).symm.trans (hall c hc))

theorem collapseBlanks_eq (text : List Char) : collapseBlanks text = squeezed text := by
  have h := collapseBlanks_flatten (List.nil_notMem_splitBy sameBlankness text)
    (fun _ => List.isChain_of_mem_splitBy) (List.isChain_getLast_head_splitBy sameBlankness text)
  rwa [List.flatten_splitBy] at h

/-! ### Collapsed text is normal -/

theorem isBlank_space : isBlank ' ' = true := by decide

theorem collapseBlanks_ne_nil {text : List Char} (h : text ≠ []) : collapseBlanks text ≠ [] := by
  fun_induction collapseBlanks text with
  | case1 => exact absurd rfl h
  | case2 => simp
  | case3 c hc d rest hd ih => exact ih (List.cons_ne_nil d rest)
  | case4 => simp
  | case5 => simp

/-- What is not blank stays. -/
theorem mem_collapseBlanks_of_mem {text : List Char} {c : Char} (h : c ∈ text)
    (hc : isBlank c = false) : c ∈ collapseBlanks text := by
  have hne : ∀ b, isBlank b = true → c ≠ b := by
    rintro b hb rfl
    rw [hc] at hb
    cases hb
  fun_induction collapseBlanks text with
  | case1 => exact h
  | case2 b hb => exact absurd (List.mem_singleton.mp h) (hne b hb)
  | case3 b hb d rest hd ih => exact ih ((List.mem_cons.mp h).resolve_left (hne b hb))
  | case4 b hb d rest hd ih =>
      exact List.mem_cons_of_mem _ (ih ((List.mem_cons.mp h).resolve_left (hne b hb)))
  | case5 b rest hb ih => exact List.mem_cons.mpr ((List.mem_cons.mp h).imp_right ih)

theorem eq_space_of_mem_collapseBlanks {text : List Char} {c : Char} (h : c ∈ collapseBlanks text)
    (hc : isBlank c = true) : c = ' ' := by
  fun_induction collapseBlanks text with
  | case1 => cases h
  | case2 b hb => exact List.mem_singleton.mp h
  | case3 b hb d rest hd ih => exact ih h
  | case4 b hb d rest hd ih =>
      rcases List.mem_cons.mp h with h | h
      · exact h
      · exact ih h
  | case5 b rest hb ih =>
      rcases List.mem_cons.mp h with rfl | h
      · exact absurd hc hb
      · exact ih h

/-- A character in front makes no pair of spaces, unless it is a space itself and one follows. -/
theorem not_doubled_cons {c : Char} {text : List Char} (h : ¬ [' ', ' '] <:+: text)
    (hc : c = ' ' → text.head? ≠ some ' ') : ¬ [' ', ' '] <:+: c :: text := by
  rw [List.infix_cons_iff, List.cons_prefix_cons]
  rintro (⟨hspace, hpair⟩ | hpair)
  · obtain ⟨rest, hrest⟩ := hpair
    exact hc hspace.symm (by rw [← hrest]; rfl)
  · exact h hpair

theorem not_doubled_collapseBlanks (text : List Char) : ¬ [' ', ' '] <:+: collapseBlanks text := by
  fun_induction collapseBlanks text with
  | case1 => simp
  | case2 b hb => decide
  | case3 b hb d rest hd ih => exact ih
  | case4 b hb d rest hd ih =>
      refine not_doubled_cons ih fun _ hspace => ?_
      rw [collapseBlanks_of_unblank (Bool.eq_false_iff.mpr hd)] at hspace
      obtain rfl := Option.some.inj hspace
      exact hd isBlank_space
  | case5 b rest hb ih =>
      refine not_doubled_cons ih fun hspace => ?_
      subst hspace
      exact absurd isBlank_space hb

theorem isNormalText_collapseBlanks {text : List Char} (h : text ≠ []) :
    MarkupTree.IsNormalText (collapseBlanks text) where
  nonempty := collapseBlanks_ne_nil h
  spaces _ := eq_space_of_mem_collapseBlanks
  single := not_doubled_collapseBlanks text

/-- Text collapses to one space exactly if all of it is blank. -/
theorem collapseBlanks_eq_space_iff {text : List Char} (h : text ≠ []) :
    collapseBlanks text = [' '] ↔ text.all isBlank = true := by
  rw [List.all_eq_true]
  constructor
  · intro hspace c hc
    by_contra hunblank
    have hmem := mem_collapseBlanks_of_mem hc (Bool.eq_false_iff.mpr hunblank)
    rw [hspace, List.mem_singleton] at hmem
    exact hunblank (hmem ▸ isBlank_space)
  · intro hall
    have hnone : ∀ c ∈ ([] : List Char).head?, isBlank c = false := by simp
    have hcollapse := collapseBlanks_append_of_blank h hall hnone
    rwa [List.append_nil] at hcollapse

/-! ### References -/

namespace Entity

/-- The digits write the number in the base. -/
def Writes (base : Nat) (digits : List Char) (n : Nat) : Prop :=
  digits ≠ [] ∧ ∃ values : List Nat, digits.map (digitValue base) = values.map some ∧
    n = Nat.ofDigits base values.reverse

/-- The body of a reference stands for a character: by one of five names, or by the number of the
character, decimal or hexadecimal. -/
inductive StandsFor : List Char → Char → Prop
  | lt : StandsFor ['l', 't'] '<'
  | gt : StandsFor ['g', 't'] '>'
  | amp : StandsFor ['a', 'm', 'p'] '&'
  | quot : StandsFor ['q', 'u', 'o', 't'] '"'
  | apos : StandsFor ['a', 'p', 'o', 's'] '\''
  | decimal {digits : List Char} {c : Char} (h : Writes 10 digits c.toNat) :
      StandsFor ('#' :: digits) c
  | hexadecimal {x : Char} {digits : List Char} {c : Char} (hx : x = 'x' ∨ x = 'X')
      (h : Writes 16 digits c.toNat) : StandsFor ('#' :: x :: digits) c

theorem foldlM_digits {base : Nat} (digits : List Char) (high n : Nat) :
    digits.foldlM (fun n c => (digitValue base c).map (base * n + ·)) high = some n ↔
      ∃ values : List Nat, digits.map (digitValue base) = values.map some ∧
        n = values.foldl (fun n d => base * n + d) high := by
  induction digits generalizing high with
  | nil =>
      constructor
      · intro h
        exact ⟨[], rfl, (Option.some.inj h).symm⟩
      · rintro ⟨values, hvalues, rfl⟩
        rw [List.map_eq_nil_iff.mp hvalues.symm]
        rfl
  | cons c digits ih =>
      rw [List.foldlM_cons, Option.bind_eq_bind, Option.bind_eq_some_iff]
      constructor
      · rintro ⟨next, hnext, h⟩
        obtain ⟨d, hd, rfl⟩ := Option.map_eq_some_iff.mp hnext
        obtain ⟨values, hvalues, rfl⟩ := (ih _).mp h
        exact ⟨d :: values, by rw [List.map_cons, hd, hvalues, List.map_cons], rfl⟩
      · rintro ⟨values, hvalues, rfl⟩
        cases values with
        | nil => cases hvalues
        | cons d values =>
            obtain ⟨hd, hvalues⟩ := List.cons.inj hvalues
            exact ⟨base * high + d, by rw [hd]; rfl, (ih _).mpr ⟨values, hvalues, rfl⟩⟩

theorem ofDigits_reverse (base : Nat) (values : List Nat) :
    Nat.ofDigits base values.reverse = values.foldl (fun n d => base * n + d) 0 := by
  rw [Nat.ofDigits_eq_foldr, List.foldr_reverse]
  simp only [Nat.cast_id, Nat.add_comm]

theorem number?_eq_some_iff {base : Nat} {digits : List Char} {n : Nat} :
    number? base digits = some n ↔ Writes base digits n := by
  unfold number? Writes
  simp only [ofDigits_reverse, ← foldlM_digits]
  cases digits with
  | nil => simp
  | cons c digits => simp

theorem charOf?_eq_some_iff {code : Nat} {c : Char} : charOf? code = some c ↔ code = c.toNat := by
  unfold charOf?
  constructor
  · intro h
    split at h
    · next hvalid =>
        obtain rfl := Option.some.inj h
        rw [Char.ofNat, dif_pos hvalid]
        rfl
    · cases h
  · rintro rfl
    have hvalid : c.toNat.isValidChar := c.valid
    rw [if_pos hvalid, Char.ofNat_toNat]

theorem bind_charOf?_eq_some_iff {base : Nat} {digits : List Char} {c : Char} :
    (number? base digits).bind charOf? = some c ↔ Writes base digits c.toNat := by
  rw [Option.bind_eq_some_iff]
  constructor
  · rintro ⟨code, hcode, hc⟩
    rw [charOf?_eq_some_iff] at hc
    rw [← hc]
    exact number?_eq_some_iff.mp hcode
  · intro h
    exact ⟨c.toNat, number?_eq_some_iff.mpr h, charOf?_eq_some_iff.mpr rfl⟩

theorem decode?_decimal {d : Char} {v : Nat} (hd : digitValue 10 d = some v) (digits : List Char) :
    decode? ('#' :: d :: digits) = (number? 10 (d :: digits)).bind charOf? := by
  have hne : ∀ x, digitValue 10 x = none → d ≠ x := by
    rintro x hx rfl
    rw [hx] at hd
    cases hd
  rw [decode?]
  · simpa using hne 'x' (by decide)
  · simpa using hne 'X' (by decide)

theorem decode?_eq_some_iff {body : List Char} {c : Char} :
    decode? body = some c ↔ StandsFor body c := by
  constructor
  · intro h
    unfold decode? at h
    split at h
    · cases h; exact .lt
    · cases h; exact .gt
    · cases h; exact .amp
    · cases h; exact .quot
    · cases h; exact .apos
    · exact .hexadecimal (.inl rfl) (bind_charOf?_eq_some_iff.mp h)
    · exact .hexadecimal (.inr rfl) (bind_charOf?_eq_some_iff.mp h)
    · exact .decimal (bind_charOf?_eq_some_iff.mp h)
    · cases h
  · intro h
    cases h with
    | lt => rfl
    | gt => rfl
    | amp => rfl
    | quot => rfl
    | apos => rfl
    | decimal h =>
        have hdigits := h
        obtain ⟨hne, values, hvalues, -⟩ := hdigits
        obtain ⟨d, digits, rfl⟩ := List.exists_cons_of_ne_nil hne
        cases values with
        | nil => cases hvalues
        | cons v values =>
            rw [decode?_decimal (List.cons.inj hvalues).1]
            exact bind_charOf?_eq_some_iff.mpr h
    | hexadecimal hx h =>
        rw [← bind_charOf?_eq_some_iff] at h
        rcases hx with rfl | rfl
        · exact h
        · exact h

theorem isBodyChar_of_hexDigit? {c : Char} {v : Nat} (h : hexDigit? c = some v) :
    isBodyChar c = true := by
  have halphanum : c.isAlphanum = true := by
    rw [Char.isAlphanum, Bool.or_eq_true, Char.isAlpha, Bool.or_eq_true]
    unfold hexDigit? at h
    split_ifs at h with hdigit hlower hupper
    · exact .inr hdigit
    · refine .inl (.inr ?_)
      simp only [Char.isLower, Char.le_def, UInt32.le_iff_toNat_le, ge_iff_le, decide_eq_true_eq,
        Bool.and_eq_true] at hlower ⊢
      exact ⟨hlower.1, hlower.2.trans (by decide)⟩
    · refine .inl (.inl ?_)
      simp only [Char.isUpper, Char.le_def, UInt32.le_iff_toNat_le, ge_iff_le,
        decide_eq_true_eq] at hupper ⊢
      exact ⟨hupper.1, hupper.2.trans (by decide)⟩
  rw [isBodyChar, halphanum, Bool.true_or]

theorem Writes.chars {base n : Nat} {digits : List Char} (h : Writes base digits n) :
    ∀ d ∈ digits, isBodyChar d = true := by
  intro d hd
  obtain ⟨-, values, hvalues, -⟩ := h
  have hmem : digitValue base d ∈ values.map some := hvalues ▸ List.mem_map_of_mem hd
  obtain ⟨v, -, hv⟩ := List.mem_map.mp hmem
  rw [digitValue] at hv
  exact isBodyChar_of_hexDigit? (Option.filter_eq_some_iff.mp hv.symm).1

/-- What stands for a character is made of letters, digits and number signs. -/
theorem StandsFor.chars {body : List Char} {c : Char} (h : StandsFor body c) :
    ∀ d ∈ body, isBodyChar d = true := by
  cases h with
  | lt => exact List.all_eq_true.mp (by decide)
  | gt => exact List.all_eq_true.mp (by decide)
  | amp => exact List.all_eq_true.mp (by decide)
  | quot => exact List.all_eq_true.mp (by decide)
  | apos => exact List.all_eq_true.mp (by decide)
  | decimal h => exact List.forall_mem_cons.mpr ⟨by decide, h.chars⟩
  | hexadecimal hx h =>
      refine List.forall_mem_cons.mpr ⟨by decide, List.forall_mem_cons.mpr ⟨?_, h.chars⟩⟩
      rcases hx with rfl | rfl
      · decide
      · decide

theorem StandsFor.unique {body : List Char} {c d : Char} (hc : StandsFor body c)
    (hd : StandsFor body d) : c = d :=
  Option.some.inj ((decode?_eq_some_iff.mpr hc).symm.trans (decode?_eq_some_iff.mpr hd))

/-- A reference of at most ten characters between its `&` and its `;`. -/
def ShortlyStandsFor (body : List Char) (c : Char) : Prop := body.length ≤ 10 ∧ StandsFor body c

theorem denotes_iff {body : List Char} {c : Char} : Denotes body c ↔ ShortlyStandsFor body c := by
  constructor
  · intro h
    exact ⟨h.short, decode?_eq_some_iff.mp h.decoded⟩
  · rintro ⟨hshort, h⟩
    refine ⟨List.all_eq_true.mpr h.chars, ?_, hshort, decode?_eq_some_iff.mpr h⟩
    rintro rfl
    cases h

/-! ### Decoding -/

/-- Reading from left to right, every reference is replaced by the character it stands for, and
every character that starts none is kept. -/
inductive Decodes (Refers : List Char → Char → Prop) : List Char → List Char → Prop
  | nil : Decodes Refers [] []
  | replaced {body after text : List Char} {c : Char} (h : Refers body c)
      (hafter : Decodes Refers after text) : Decodes Refers (written body ++ after) (c :: text)
  | kept {c : Char} {rest text : List Char}
      (h : ∀ body d after, Refers body d → c :: rest ≠ written body ++ after)
      (hrest : Decodes Refers rest text) : Decodes Refers (c :: rest) (c :: text)

theorem written_append (body after : List Char) :
    written body ++ after = '&' :: (body ++ ';' :: after) := by
  simp [written]

/-- Two references that start a text are the same. -/
theorem written_append_inj {body body' after after' : List Char} {c c' : Char}
    (h : StandsFor body c) (h' : StandsFor body' c')
    (heq : written body ++ after = written body' ++ after') : body = body' ∧ after = after' := by
  have htake : ∀ {body : List Char} {c : Char}, StandsFor body c → ∀ after,
      (body ++ ';' :: after).takeWhile isBodyChar = body := fun h after => by
    rw [List.takeWhile_append_of_pos h.chars, List.takeWhile_cons_of_neg (by decide),
      List.append_nil]
  rw [written_append, written_append, List.cons_inj_right] at heq
  have hbody : body = body' := by
    rw [← htake h after, ← htake h' after', heq]
  subst hbody
  exact ⟨rfl, (List.cons.inj (List.append_cancel_left heq)).2⟩

section Decodes

variable {Refers : List Char → Char → Prop} {text decoded : List Char}

theorem decodes_iff :
    Decodes Refers text decoded ↔
      (text = [] ∧ decoded = []) ∨
      (∃ body c after rest, Refers body c ∧ text = written body ++ after ∧ decoded = c :: rest ∧
        Decodes Refers after rest) ∨
      ∃ c after rest, (∀ body d after, Refers body d → text ≠ written body ++ after) ∧
        text = c :: after ∧ decoded = c :: rest ∧ Decodes Refers after rest := by
  constructor
  · intro h
    cases h with
    | nil => exact .inl ⟨rfl, rfl⟩
    | replaced h hafter => exact .inr (.inl ⟨_, _, _, _, h, rfl, rfl, hafter⟩)
    | kept h hrest => exact .inr (.inr ⟨_, _, _, h, rfl, rfl, hrest⟩)
  · rintro (⟨rfl, rfl⟩ | ⟨body, c, after, rest, h, rfl, rfl, hafter⟩ |
      ⟨c, after, rest, h, rfl, rfl, hrest⟩)
    · exact .nil
    · exact .replaced h hafter
    · exact .kept h hrest

/-- A text is decoded in one way only. The induction is on the first way; the second one has to go
on as the first, since no two references start at one place. -/
theorem Decodes.unique (hrefers : ∀ body c, Refers body c → StandsFor body c)
    {decoded' : List Char} (h : Decodes Refers text decoded) (h' : Decodes Refers text decoded') :
    decoded = decoded' := by
  induction h generalizing decoded' with
  | nil =>
      rcases decodes_iff.mp h' with ⟨-, rfl⟩ | ⟨body, c, after, rest, -, htext, -⟩ |
        ⟨c, after, rest, -, htext, -⟩
      · rfl
      · cases htext
      · cases htext
  | @replaced body after text c hbody hafter ih =>
      rcases decodes_iff.mp h' with ⟨htext, -⟩ |
        ⟨body', c', after', rest, hbody', htext, rfl, hrest⟩ | ⟨d, after', rest, hnone, -⟩
      · cases htext
      · have hstands := hrefers body c hbody
        have hstands' := hrefers body' c' hbody'
        obtain ⟨rfl, rfl⟩ := written_append_inj hstands hstands' htext
        rw [hstands.unique hstands', ih hrest]
      · exact absurd rfl (hnone body c after hbody)
  | @kept c rest text hnone hrest ih =>
      rcases decodes_iff.mp h' with ⟨htext, -⟩ | ⟨body, d, after, rest', hbody, htext, -⟩ |
        ⟨d, after, rest', -, htext, rfl, hrest'⟩
      · cases htext
      · exact absurd htext (hnone body d after hbody)
      · obtain ⟨rfl, rfl⟩ := List.cons.inj htext
        rw [ih hrest']

theorem Decodes.ne_nil (h : Decodes Refers text decoded) (hne : text ≠ []) : decoded ≠ [] := by
  cases h with
  | nil => exact hne
  | replaced => exact List.cons_ne_nil _ _
  | kept => exact List.cons_ne_nil _ _

/-- Text without `&` is kept. -/
theorem Decodes.append {front : List Char} (hfront : ∀ c ∈ front, c ≠ '&')
    (h : Decodes Refers text decoded) : Decodes Refers (front ++ text) (front ++ decoded) := by
  induction front with
  | nil => exact h
  | cons c front ih =>
      obtain ⟨hc, hrest⟩ := List.forall_mem_cons.mp hfront
      refine .kept (fun body d after _ heq => ?_) (ih hrest)
      rw [written_append] at heq
      exact hc (List.cons.inj heq).1

end Decodes

theorem body_of_split? {after body rest : List Char} (h : split? after = some (body, rest)) :
    (∀ c ∈ body, isBodyChar c = true) ∧ body.length ≤ 10 := by
  unfold split? at h
  simp only at h
  split at h
  · cases h
  · next hshort =>
      split at h
      · cases h
        rw [Bool.or_eq_true, decide_eq_true_eq, not_or, Nat.not_lt] at hshort
        exact ⟨List.all_eq_true.mp List.all_takeWhile, hshort.2⟩
      · cases h

/-- A short reference is found where it starts. -/
theorem split?_of_shortlyStandsFor {rest body after : List Char} {c : Char}
    (h : ShortlyStandsFor body c) (htext : '&' :: rest = written body ++ after) :
    split? rest = some (body, after) := by
  rw [written_append] at htext
  rw [(List.cons.inj htext).2]
  exact (denotes_iff.mpr h).split? after

/-- Decoding replaces the references that are short enough. -/
theorem decodes_decode (text : List Char) : Decodes ShortlyStandsFor text (decode text) := by
  fun_induction decode text with
  | case1 => exact .nil
  | case2 rest body after hsplit ih =>
      obtain ⟨hchars, hshort⟩ := body_of_split? hsplit
      have htext : '&' :: rest = written body ++ after := by
        rw [written_append, eq_of_split? hsplit]
      cases hbody : decode? body with
      | some d =>
          rw [htext]
          exact .replaced ⟨hshort, decode?_eq_some_iff.mp hbody⟩ ih
      | none =>
          have hnone : ∀ body' d after', ShortlyStandsFor body' d →
              '&' :: rest ≠ written body' ++ after' := by
            intro body' d after' hstands heq
            have hsame := hsplit.symm.trans (split?_of_shortlyStandsFor hstands heq)
            obtain ⟨rfl, -⟩ := Prod.mk.inj (Option.some.inj hsame)
            rw [decode?_eq_some_iff.mpr hstands.2] at hbody
            cases hbody
          have hkept : ∀ c ∈ body ++ [';'], c ≠ '&' := by
            rintro c hc rfl
            rcases List.mem_append.mp hc with hc | hc
            · exact absurd (hchars '&' hc) (by decide)
            · exact absurd (List.mem_singleton.mp hc) (by decide)
          have hrest : rest = (body ++ [';']) ++ after := by
            rw [eq_of_split? hsplit, List.append_assoc, List.singleton_append]
          refine .kept hnone ?_
          rw [hrest]
          exact ih.append hkept
  | case3 rest hsplit ih =>
      refine .kept (fun body d after hstands heq => ?_) ih
      rw [split?_of_shortlyStandsFor hstands heq] at hsplit
      cases hsplit
  | case4 c rest hc ih =>
      refine .kept (fun body d after _ heq => ?_) ih
      rw [written_append] at heq
      exact hc (List.cons.inj heq).1

theorem decodes_iff_eq_decode {text decoded : List Char} :
    Decodes ShortlyStandsFor text decoded ↔ decoded = decode text := by
  constructor
  · intro h
    exact h.unique (fun _ _ => And.right) (decodes_decode text)
  · rintro rfl
    exact decodes_decode text

end Entity

/-! ### Text tokens -/

/-- If the token is text, it covers a piece of the source and is the token of that piece. -/
def Token.ReadsRun (t : Token) (source : String) : Prop :=
  ∀ content blank, t.kind = .text content blank →
    ∃ run, run ≠ [] ∧ t.span.slice? source = some run ∧ t.kind = .ofText run

namespace Scanner

variable {source : String} {cursor : Cursor}

theorem readsRun_textRun (hc : (Cursor.ofString source).Reaches cursor)
    (hlt : (textRun cursor).cursor.rest.length < cursor.rest.length) :
    (textRun cursor).token.ReadsRun source := by
  intro content blank _
  have hsplit := append_splitText cursor.rest
  have hspan : (textRun cursor).token.span = cursor.place.spanOf (splitText cursor.rest).1 :=
    Position.spanTo_after _ _
  refine ⟨(splitText cursor.rest).1, fun hnil => ?_, ?_, rfl⟩
  · rw [hnil, List.nil_append] at hsplit
    have hsame : (textRun cursor).cursor.rest = cursor.rest := hsplit
    rw [hsame] at hlt
    exact Nat.lt_irrefl _ hlt
  · rw [hspan]
    exact (Cursor.marks_spanOf hc hsplit.symm).slice

theorem readsRun_endTag : (endTag cursor).token.ReadsRun source := by
  intro content blank h
  simp only [endTag] at h
  split at h
  · cases h
  · cases h

theorem readsRun_comment : (comment cursor).token.ReadsRun source := by
  intro content blank h
  simp only [comment] at h
  split at h
  · cases h
  · cases h

theorem readsRun_declaration : (declaration cursor).token.ReadsRun source := by
  intro content blank h
  simp only [declaration] at h
  split at h
  · cases h
  · cases h

theorem readsRun_startTag : (startTag cursor).token.ReadsRun source := by
  intro content blank h
  cases h

theorem readsRun_token (hc : (Cursor.ofString source).Reaches cursor) (hrest : cursor.rest ≠ []) :
    (token cursor).token.ReadsRun source := by
  have hlt := length_token_lt hrest
  generalize htoken : token cursor = scanned at hlt ⊢
  unfold token at htoken
  split at htoken
  · split at htoken
    · split at htoken
      · exact htoken ▸ readsRun_endTag
      · exact htoken ▸ readsRun_comment
      · exact htoken ▸ readsRun_declaration
      · exact htoken ▸ readsRun_declaration
      · exact htoken ▸ readsRun_startTag
    · subst htoken
      exact readsRun_textRun hc hlt
  · subst htoken
    exact readsRun_textRun hc hlt

theorem readsRun_scanAll (hc : (Cursor.ofString source).Reaches cursor) :
    ∀ s ∈ scanAll cursor, s.token.ReadsRun source := by
  fun_induction scanAll cursor with
  | case1 => exact fun s hs => absurd hs List.not_mem_nil
  | case2 cursor hrest scanned ih =>
      intro s hs
      rcases List.mem_cons.mp hs with rfl | hs
      · exact readsRun_token hc hrest
      · exact ih (hc.trans (reaches_token cursor)) s hs

end Scanner

namespace TokenStream

theorem readsRun_ofSource {source : String} {t : Token} (h : t ∈ (ofSource source).tokens) :
    t.ReadsRun source := by
  obtain ⟨s, hs, rfl⟩ := List.mem_map.mp h
  exact Scanner.readsRun_scanAll (Cursor.Reaches.refl (Cursor.ofString source)) s hs

/-- A text token says what the source says where it stands: the one decoding of the text of its
span, squeezed. That is normal text, and the token is blank exactly if it is one space. -/
theorem text_ofSource (source : String) :
    ∀ t ∈ (ofSource source).tokens, ∀ content blank, t.kind = .text content blank →
      ∃ run decoded, t.span.slice? source = some run ∧
        (∀ text, Entity.Decodes Entity.ShortlyStandsFor run text ↔ text = decoded) ∧
        content.toList = squeezed decoded ∧ MarkupTree.IsNormalText content.toList ∧
        (blank = true ↔ content = " ") := by
  intro t ht content blank hkind
  obtain ⟨run, hne, hslice, hrun⟩ := readsRun_ofSource ht content blank hkind
  obtain ⟨rfl, rfl⟩ := TokenKind.text.inj (hkind.symm.trans hrun)
  have hdecoded : Entity.decode run ≠ [] := (Entity.decodes_decode run).ne_nil hne
  have hcontent : (String.ofList (textContent run)).toList = collapseBlanks (Entity.decode run) :=
    String.toList_ofList
  refine ⟨run, Entity.decode run, hslice, fun _ => Entity.decodes_iff_eq_decode, ?_, ?_, ?_⟩
  · rw [hcontent, collapseBlanks_eq]
  · rw [hcontent]
    exact isNormalText_collapseBlanks hdecoded
  · rw [← collapseBlanks_eq_space_iff hdecoded, ← hcontent, ← String.toList_inj]
    rfl

/-- Text in which a blank between two others is written as a reference, and a name is unknown. -/
theorem text_ofSource_mixed :
    let source := "<p>a &#32;\n&lt;&nope;</p>"
    let t : Token := ⟨.text "a <&nope;" false, ⟨3, 1, 4, 18⟩⟩
    t ∈ (ofSource source).tokens ∧
      ∃ run decoded, t.span.slice? source = some run ∧
        (∀ text, Entity.Decodes Entity.ShortlyStandsFor run text ↔ text = decoded) ∧
        "a <&nope;".toList = squeezed decoded ∧ MarkupTree.IsNormalText "a <&nope;".toList ∧
        (false = true ↔ "a <&nope;" = " ") := by
  intro source t
  have ht : t ∈ (ofSource source).tokens := by decide +kernel
  exact ⟨ht, text_ofSource source t ht _ _ rfl⟩

/-- A reference of eleven characters is kept as it is written, although it stands for a
character. -/
theorem text_ofSource_longReference :
    ¬ ∀ (source : String) (t : Token), t ∈ (ofSource source).tokens →
      ∀ content blank, t.kind = .text content blank →
        ∃ run decoded, t.span.slice? source = some run ∧
          Entity.Decodes Entity.StandsFor run decoded ∧ content.toList = squeezed decoded := by
  intro h
  have ht : (⟨.text "&#00000000065;" false, ⟨0, 1, 1, 14⟩⟩ : Token) ∈
      (ofSource "&#00000000065;").tokens := by
    decide +kernel
  obtain ⟨run, decoded, hslice, hdecodes, hcontent⟩ := h _ _ ht _ _ rfl
  have hbody : Entity.StandsFor "#00000000065".toList 'A' :=
    Entity.decode?_eq_some_iff.mp (by decide)
  have hrun : run = Entity.written "#00000000065".toList ++ [] := by
    have hwhole : (⟨0, 1, 1, 14⟩ : Span).slice? "&#00000000065;" =
        some "&#00000000065;".toList := by decide
    rw [hwhole] at hslice
    exact (Option.some.inj hslice).symm
  rw [hrun] at hdecodes
  have hA := hdecodes.unique (fun _ _ h => h) (.replaced hbody .nil)
  rw [hA] at hcontent
  revert hcontent
  decide

end TokenStream

end PatternMarkup
