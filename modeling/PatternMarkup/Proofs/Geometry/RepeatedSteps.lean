import Mathlib
import PatternMarkup.Geometry.PathReader
import PatternMarkup.Proofs.Formula.Bracing
import PatternMarkup.Proofs.Number.ExactNumbers
/-!
Paths whose letters are left out. The letter in force when a path has been read is the last one
written, or the line that goes on after a move; numbers that follow without a letter are read as if
it stood before them. Every path that is read starts with a move.
-/

namespace PatternMarkup

/-! ### Lexemes between spaces -/

/-- What follows a part of a text, if a space and more come after the text. -/
theorem drop_append_space {part text : List Char} (h : part <+: text) (rest : List Char) :
    (text ++ ' ' :: rest).drop part.length = text.drop part.length ++ ' ' :: rest :=
  List.drop_append_of_le_length h.length_le

namespace Numeral

theorem signPart_append_space (text rest : List Char) :
    signPart (text ++ ' ' :: rest) = signPart text := by
  cases text with
  | nil => rfl
  | cons c text =>
      rw [List.cons_append]
      unfold signPart
      split <;> simp_all

theorem takeWhile_append_space (text rest : List Char) :
    (text ++ ' ' :: rest).takeWhile Char.isDigit = text.takeWhile Char.isDigit := by
  induction text with
  | nil => rfl
  | cons c text ih =>
      rw [List.cons_append, List.takeWhile_cons, List.takeWhile_cons, ih]

theorem exponentPart_append_space (text rest : List Char) :
    exponentPart (text ++ ' ' :: rest) = exponentPart text := by
  cases text with
  | nil => rfl
  | cons e text =>
      simp only [List.cons_append, exponentPart, signPart_append_space,
        drop_append_space (signPart_isPrefix text), takeWhile_append_space]

end Numeral

/-- The letter of a lexeme, if it is one. -/
def PathLexemeKind.letter? : PathLexemeKind → Option Char
  | letter c => some c
  | number _ => none
  | junk => none

namespace PathLexeme

open Numeral

attribute [local simp] mantissa scan

theorem mantissa_isPrefix (seenPoint : Bool) (text : List Char) :
    mantissa seenPoint text <+: text := by
  induction text generalizing seenPoint with
  | nil => exact List.nil_prefix
  | cons c rest ih =>
      rw [mantissa]
      split_ifs
      · exact (List.prefix_cons_inj c).mpr (ih seenPoint)
      · exact (List.prefix_cons_inj c).mpr (ih true)
      · exact List.nil_prefix

theorem mantissa_append_space (seenPoint : Bool) (text rest : List Char) :
    mantissa seenPoint (text ++ ' ' :: rest) = mantissa seenPoint text := by
  induction text generalizing seenPoint with
  | nil => rfl
  | cons c text ih => rw [List.cons_append, mantissa, mantissa, ih, ih]

theorem numberPart_isPrefix (text : List Char) : numberPart text <+: text := by
  simp only [numberPart]
  split
  · exact append_isPrefix (append_isPrefix (signPart_isPrefix text) (mantissa_isPrefix false _))
      (exponentPart_isPrefix _)
  · exact List.nil_prefix

theorem numberPart_append_space (text rest : List Char) :
    numberPart (text ++ ' ' :: rest) = numberPart text := by
  have hsign := drop_append_space (signPart_isPrefix text) rest
  have hfront := drop_append_space
    (append_isPrefix (signPart_isPrefix text) (mantissa_isPrefix false _)) rest
  simp only [numberPart, signPart_append_space, hsign, mantissa_append_space, hfront,
    exponentPart_append_space]

theorem read_append_space (c : Char) (text rest : List Char) :
    read c (text ++ ' ' :: rest) = read c text := by
  rw [read, read, ← List.cons_append, numberPart_append_space]

/-- A lexeme ends where the text does or earlier. -/
theorem read_count_le (c : Char) (text : List Char) : (read c text).2 ≤ text.length + 1 := by
  have hpart := (numberPart_isPrefix (c :: text)).length_le
  unfold read
  split
  · exact Nat.le_add_left 1 _
  · simp only
    split
    · exact hpart
    · exact Nat.le_add_left 1 _

/-- Where a text starts changes the places of its lexemes only. -/
theorem map_kind_scan (offset other : Nat) (text : List Char) :
    (scan offset text).map PathLexeme.kind = (scan other text).map PathLexeme.kind := by
  fun_induction scan offset text generalizing other with
  | case1 => rw [scan]
  | case2 offset c rest hc ih =>
      rw [scan, if_pos hc]
      exact ih _
  | case3 offset c rest hc kind count hread ih =>
      conv_rhs => rw [scan, if_neg hc]
      rw [hread, List.map_cons, List.map_cons, ih]

/-- The lexemes of a text without their places. -/
def kinds (text : List Char) : List PathLexemeKind := (scan 0 text).map PathLexeme.kind

theorem kinds_nil : kinds [] = [] := by rw [kinds, scan, List.map_nil]

theorem kinds_of_isSeparator {c : Char} (hc : isSeparator c = true) (rest : List Char) :
    kinds (c :: rest) = kinds rest := by
  rw [kinds, scan, if_pos hc]
  exact map_kind_scan _ 0 rest

theorem kinds_of_not_isSeparator {c : Char} (hc : isSeparator c = false) (rest : List Char) :
    kinds (c :: rest) = (read c rest).1 :: kinds (rest.drop ((read c rest).2 - 1)) := by
  rw [kinds, scan, if_neg (Bool.eq_false_iff.mp hc), List.map_cons]
  exact congrArg _ (map_kind_scan _ 0 _)

/-- A space separates what is before it from what is after it. The induction is on the text before
it, from which the first lexeme is read as if nothing followed. -/
theorem kinds_append_space (text rest : List Char) :
    kinds (text ++ ' ' :: rest) = kinds text ++ kinds rest := by
  induction hlength : text.length using Nat.strong_induction_on generalizing text with
  | h length ih =>
  cases text with
  | nil =>
      rw [List.nil_append, kinds_of_isSeparator (by decide), kinds_nil, List.nil_append]
  | cons c text =>
      rw [List.length_cons] at hlength
      rw [List.cons_append]
      cases hc : isSeparator c with
      | true =>
          rw [kinds_of_isSeparator hc, kinds_of_isSeparator hc, ih text.length (by omega) text rfl]
      | false =>
          have hcount := read_count_le c text
          have hdrop : (text ++ ' ' :: rest).drop ((read c text).2 - 1) =
              text.drop ((read c text).2 - 1) ++ ' ' :: rest :=
            List.drop_append_of_le_length (by omega)
          rw [kinds_of_not_isSeparator hc, kinds_of_not_isSeparator hc, read_append_space, hdrop,
            ih _ _ _ rfl, List.cons_append]
          rw [List.length_drop]
          omega

/-- Whether a number may start with the character. -/
def StartsNumber (c : Char) : Prop := c.isDigit = true ∨ c = '+' ∨ c = '-' ∨ c = '.'

theorem isAlpha_of_isDigit {c : Char} (h : c.isDigit = true) : c.isAlpha = false := by
  have hupper : '9'.val.toNat < 'A'.val.toNat := by decide
  have hlower : '9'.val.toNat < 'a'.val.toNat := by decide
  simp only [Char.isDigit, Char.isAlpha, Char.isUpper, Char.isLower, UInt32.le_iff_toNat_le,
    ge_iff_le, Bool.and_eq_true, decide_eq_true_eq, Bool.or_eq_false_iff, Bool.and_eq_false_iff,
    decide_eq_false_iff_not] at h ⊢
  omega

theorem isAlpha_of_startsNumber {c : Char} (h : StartsNumber c) : c.isAlpha = false := by
  rcases h with h | rfl | rfl | rfl
  · exact isAlpha_of_isDigit h
  · decide
  · decide
  · decide

/-- A separator is neither a letter nor the start of a number. -/
theorem of_isSeparator {c : Char} (h : isSeparator c = true) :
    c.isAlpha = false ∧ ¬ StartsNumber c := by
  simp only [isSeparator, Bool.or_eq_true, beq_iff_eq] at h
  unfold StartsNumber
  rcases h with ((((rfl | rfl) | rfl) | rfl) | rfl) | rfl <;> decide

theorem isSeparator_of_startsNumber {c : Char} (h : StartsNumber c) : isSeparator c = false :=
  Bool.eq_false_iff.mpr fun hc => (of_isSeparator hc).2 h

theorem kinds_letter {c : Char} (h : c.isAlpha = true) : kinds [c] = [.letter c] := by
  have hc : isSeparator c = false := Bool.eq_false_iff.mpr fun hc => by
    rw [(of_isSeparator hc).1] at h
    cases h
  rw [kinds_of_not_isSeparator hc, read, if_pos h]
  exact congrArg _ kinds_nil

theorem exists_kinds_cons {c : Char} (hc : StartsNumber c) (rest : List Char) :
    ∃ first more, kinds (c :: rest) = first :: more ∧ ∀ d, first ≠ .letter d := by
  refine ⟨_, _, kinds_of_not_isSeparator (isSeparator_of_startsNumber hc) rest, fun d => ?_⟩
  rw [read, isAlpha_of_startsNumber hc]
  simp only [Bool.false_eq_true, if_false]
  split <;> simp

/-- The last letter among lexemes. -/
def lastLetter? (kinds : List PathLexemeKind) : Option Char :=
  (kinds.filterMap PathLexemeKind.letter?).getLast?

theorem lastLetter?_cons_or (kind : PathLexemeKind) (kinds : List PathLexemeKind)
    (last : Option Char) :
    (lastLetter? (kind :: kinds)).or last = (lastLetter? kinds).or (kind.letter?.or last) := by
  unfold lastLetter?
  cases hc : kind.letter? with
  | none => rw [List.filterMap_cons_none hc, Option.none_or]
  | some c =>
      rw [List.filterMap_cons_some hc, List.getLast?_cons, Option.some_or, Option.some_or]
      cases (kinds.filterMap PathLexemeKind.letter?).getLast? <;> rfl

end PathLexeme

/-! ### The letter in force -/

/-- A path that begins with a move still does when a step is put after it. -/
theorem PathCommand.begins_cons {α : Type} {done : List (PathCommand α)} {command : PathCommand α}
    (hbegins : done = [] ∨ ∃ q, done.getLast? = some (.moveTo q))
    (hfirst : done = [] → ∃ q, command = .moveTo q) :
    ∃ q, (command :: done).getLast? = some (.moveTo q) := by
  rcases hbegins with hnil | ⟨q, hq⟩
  · obtain ⟨q, rfl⟩ := hfirst hnil
    exact ⟨q, by rw [hnil]; rfl⟩
  · exact ⟨q, by rw [List.getLast?_cons, hq]; rfl⟩

namespace PathProgress

variable {α : Type}

theorem continued_continued (l : Char) : continued (continued l) = continued l := by
  unfold continued
  split_ifs <;> simp_all

theorem continued_mem_letters {l : Char} (hl : l ∈ letters) : continued l ∈ letters := by
  unfold continued
  split_ifs
  · decide
  · decide
  · exact hl

theorem continued_stays {l : Char} (hl : l.toUpper ≠ 'Z') : (continued l).toUpper ≠ 'Z' := by
  unfold continued
  split_ifs
  · decide
  · decide
  · exact hl

theorem isAlpha_of_mem_letters {l : Char} (hl : l ∈ letters) : l.isAlpha = true :=
  List.all_eq_true.mp (by decide : letters.all Char.isAlpha = true) l hl

/-- What holds of a path read in part when `last` is the last letter read. -/
structure Continues (p : PathProgress α) (last : Option Char) : Prop where
  /-- The letter in force is the last one, unless that was a move that is done. -/
  inForce : ∀ l, p.letter = some l → l ∈ letters ∧ l.toUpper ≠ 'Z' ∧
    ∃ c, last = some c ∧ continued l = continued c
  /-- Between two steps no move is in force. -/
  between : ∀ l, p.letter = some l → p.owesNumber = false → continued l = l
  /-- Only a close leaves no letter in force. -/
  closed : p.letter = none → p.done = [] ∨ p.done.head? = some .close
  /-- The first step is a move. -/
  first : ∀ l, p.letter = some l → p.done = [] → l.toUpper = 'M'
  begins : p.done = [] ∨ ∃ q, p.done.getLast? = some (.moveTo q)

/-- After steps of which the last is no close, a letter is in force: the last one written, or the
line that a move goes on as. -/
theorem Continues.letter_eq {p : PathProgress α} {last : Option Char} {command : PathCommand α}
    (hp : Continues p last) (hpaid : p.owesNumber = false) (hlast : p.done.head? = some command)
    (hopen : command ≠ .close) :
    ∃ c, last = some c ∧ p.letter = some (continued c) := by
  cases hl : p.letter with
  | none =>
      rcases hp.closed hl with hnil | hclose
      · rw [hnil] at hlast
        cases hlast
      · rw [hlast] at hclose
        exact absurd (Option.some.inj hclose) hopen
  | some l =>
      obtain ⟨-, -, c, hc, hsame⟩ := hp.inForce l hl
      exact ⟨c, hc, congrArg some ((hp.between l hl hpaid).symm.trans hsame)⟩

/-! ### Steps without places -/

variable [Number α]

/-- Takes in a lexeme, if it is in order. -/
def take? (p : PathProgress α) (kind : PathLexemeKind) : Option (PathProgress α) :=
  (p.step ⟨kind, 0⟩).toOption

/-- Whether a lexeme is in order has nothing to do with its place. -/
theorem toOption_step (p : PathProgress α) (lexeme : PathLexeme) :
    (p.step lexeme).toOption = p.take? lexeme.kind := by
  obtain ⟨kind, offset⟩ := lexeme
  unfold take? step
  cases kind with
  | letter c =>
      simp only
      split_ifs <;> rfl
  | number n => cases p.letter <;> rfl
  | junk => cases p.letter <;> rfl

theorem toOption_foldlM_step (lexemes : List PathLexeme) (p : PathProgress α) :
    (lexemes.foldlM step p).toOption = (lexemes.map PathLexeme.kind).foldlM take? p := by
  induction lexemes generalizing p with
  | nil => rfl
  | cons lexeme lexemes ih =>
      rw [List.map_cons, List.foldlM_cons, List.foldlM_cons, ← toOption_step]
      cases p.step lexeme with
      | error e => rfl
      | ok next => exact ih next

theorem take?_letter {p next : PathProgress α} {c : Char} :
    p.take? (.letter c) = some next ↔
      p.owesNumber = false ∧ c ∈ letters ∧ (p.done = [] → c.toUpper = 'M') ∧
        next = p.addLetter c := by
  have hknown : (!letters.contains c) = true ↔ c ∉ letters := by simp
  have hfirst : (p.done.isEmpty && c.toUpper != 'M') = true ↔
      ¬ (p.done = [] → c.toUpper = 'M') := by
    simp [List.isEmpty_iff]
  simp only [take?, step, hknown, hfirst]
  by_cases howes : p.owesNumber = true
  · rw [if_pos howes]
    simp [Except.toOption, howes]
  rw [if_neg howes]
  by_cases hc : c ∈ letters
  · rw [if_neg (not_not_intro hc)]
    by_cases hmove : p.done = [] → c.toUpper = 'M'
    · rw [if_neg (not_not_intro hmove)]
      constructor
      · intro h
        exact ⟨Bool.eq_false_iff.mpr howes, hc, hmove, (Option.some.inj h).symm⟩
      · rintro ⟨-, -, -, rfl⟩
        rfl
    · rw [if_pos hmove]
      simp [Except.toOption, hmove]
  · rw [if_pos hc]
    simp [Except.toOption, hc]

theorem take?_number {p next : PathProgress α} {n : Numeral} :
    p.take? (.number n) = some next ↔
      ∃ letter, p.letter = some letter ∧ next = p.addNumber letter n.value := by
  unfold take? step
  cases p.letter with
  | none => simp [Except.toOption]
  | some letter => simp [Except.toOption, eq_comm]

theorem take?_junk (p : PathProgress α) : p.take? .junk = none := by
  unfold take? step
  cases p.letter <;> rfl

/-- What taking in a lexeme can do. -/
inductive Takes (p : PathProgress α) : PathLexemeKind → PathProgress α → Prop
  | close {c : Char} (closes : c.toUpper = 'Z') (started : p.done ≠ []) :
      Takes p (.letter c) { p with done := .close :: p.done, current := p.start, letter := none }
  | letter {c : Char} (known : c ∈ letters) (stays : c.toUpper ≠ 'Z')
      (first : p.done = [] → c.toUpper = 'M') :
      Takes p (.letter c) { p with letter := some c, fresh := true }
  | gather {n : Numeral} {l : Char} (inForce : p.letter = some l) :
      Takes p (.number n) { p with numbers := n.value :: p.numbers, fresh := false }
  | complete {n : Numeral} {l : Char} {command : PathCommand α} (inForce : p.letter = some l)
      (full : p.step? l (n.value :: p.numbers) = some command) :
      Takes p (.number n)
        { done := command :: p.done
          current := (endOf? command).getD p.current
          start := if l.toUpper = 'M' then (endOf? command).getD p.current else p.start
          letter := some (continued l) }

theorem takes_of_take? {p next : PathProgress α} {kind : PathLexemeKind}
    (h : p.take? kind = some next) : Takes p kind next := by
  cases kind with
  | letter c =>
      obtain ⟨-, hknown, hfirst, rfl⟩ := take?_letter.mp h
      unfold addLetter
      split_ifs with hclose
      · refine .close hclose fun hdone => ?_
        have hmove := hfirst hdone
        rw [hclose] at hmove
        exact absurd hmove (by decide)
      · exact .letter hknown hclose hfirst
  | number n =>
      obtain ⟨l, hl, rfl⟩ := take?_number.mp h
      simp only [addNumber]
      split
      · exact .gather hl
      · exact .complete hl ‹_›
  | junk =>
      rw [take?_junk] at h
      cases h

/-- Repeating the letter in force before a number changes nothing. -/
theorem take?_addLetter {p : PathProgress α} {l : Char} (hl : p.letter = some l)
    (hstays : l.toUpper ≠ 'Z') {kind : PathLexemeKind} (hkind : ∀ c, kind ≠ .letter c) :
    (p.addLetter l).take? kind = p.take? kind := by
  have hadd : p.addLetter l = { p with letter := some l, fresh := true } := if_neg hstays
  cases kind with
  | letter c => exact absurd rfl (hkind c)
  | junk => rw [take?_junk, take?_junk]
  | number n =>
      have hnumber : (p.addLetter l).addNumber l n.value = p.addNumber l n.value := by
        rw [hadd, addNumber, addNumber, ← hl]
        rfl
      have hplain : p.take? (.number n) = some (p.addNumber l n.value) :=
        take?_number.mpr ⟨l, hl, rfl⟩
      have hagain : (p.addLetter l).take? (.number n) =
          some ((p.addLetter l).addNumber l n.value) :=
        take?_number.mpr ⟨l, by rw [hadd], rfl⟩
      rw [hplain, hagain, hnumber]

/-- A step of the letter M is a move. -/
theorem moveTo_of_step? {p : PathProgress α} {l : Char} {numbers : List α} {command : PathCommand α}
    (hl : l.toUpper = 'M') (h : p.step? l numbers = some command) : ∃ q, command = .moveTo q := by
  unfold step? at h
  rw [hl] at h
  split at h
  case h_1 => exact ⟨_, (Option.some.inj h).symm⟩
  all_goals simp_all

theorem continues_initial : Continues (initial : PathProgress α) none where
  inForce := fun l hl => by cases hl
  between := fun l hl => by cases hl
  closed := fun _ => .inl rfl
  first := fun l hl => by cases hl
  begins := .inl rfl

theorem Continues.take? {p next : PathProgress α} {last : Option Char} {kind : PathLexemeKind}
    (hp : Continues p last) (h : p.take? kind = some next) :
    Continues next (kind.letter?.or last) := by
  cases takes_of_take? h with
  | close closes started =>
      exact
        { inForce := fun l hl => by cases hl
          between := fun l hl => by cases hl
          closed := fun _ => .inr rfl
          first := fun l hl => by cases hl
          begins := .inr (PathCommand.begins_cons hp.begins fun hnil => absurd hnil started) }
  | @letter c known stays first =>
      exact
        { inForce := fun l hl => by
            obtain rfl := Option.some.inj hl
            exact ⟨known, stays, c, rfl, rfl⟩
          between := fun l _ hpaid => by cases hpaid
          closed := fun hnone => by cases hnone
          first := fun l hl hnil => by
            obtain rfl := Option.some.inj hl
            exact first hnil
          begins := hp.begins }
  | gather inForce =>
      exact
        { inForce := hp.inForce
          between := fun l _ hpaid => by cases hpaid
          closed := hp.closed
          first := hp.first
          begins := hp.begins }
  | @complete n l command inForce full =>
      -- the only case that changes the letter in force without a letter: a move goes on as a line
      obtain ⟨hknown, hstays, c, hc, hsame⟩ := hp.inForce l inForce
      have hbegins := PathCommand.begins_cons hp.begins fun hnil =>
        moveTo_of_step? (hp.first l inForce hnil) full
      exact
        { inForce := fun l' hl' => by
            obtain rfl := Option.some.inj hl'
            exact ⟨continued_mem_letters hknown, continued_stays hstays, c, hc,
              (continued_continued l).trans hsame⟩
          between := fun l' hl' _ => by
            obtain rfl := Option.some.inj hl'
            exact continued_continued l
          closed := fun hnone => by cases hnone
          first := fun _ _ hnil => by cases hnil
          begins := .inr hbegins }

theorem Continues.foldlM_take? {kinds : List PathLexemeKind} {p next : PathProgress α}
    {last : Option Char} (hp : Continues p last)
    (h : kinds.foldlM PathProgress.take? p = some next) :
    Continues next ((PathLexeme.lastLetter? kinds).or last) := by
  induction kinds generalizing p last with
  | nil =>
      obtain rfl := Option.some.inj h
      exact hp
  | cons kind kinds ih =>
      obtain ⟨mid, hmid, hrest⟩ := Option.bind_eq_some_iff.mp h
      rw [PathLexeme.lastLetter?_cons_or]
      exact ih (hp.take? hmid) hrest

/-- Between two steps the letter in force may be written again if no letter follows. -/
theorem Continues.foldlM_letter_cons {p : PathProgress α} {last : Option Char} {l : Char}
    (hp : Continues p last) (hpaid : p.owesNumber = false) (hdone : p.done ≠ [])
    (hl : p.letter = some l) {first : PathLexemeKind} (hfirst : ∀ c, first ≠ .letter c)
    (more : List PathLexemeKind) :
    (.letter l :: first :: more).foldlM PathProgress.take? p =
      (first :: more).foldlM PathProgress.take? p := by
  obtain ⟨hknown, hstays, -⟩ := hp.inForce l hl
  have hletter : p.take? (.letter l) = some (p.addLetter l) :=
    take?_letter.mpr ⟨hpaid, hknown, fun hnil => absurd hnil hdone, rfl⟩
  rw [List.foldlM_cons, hletter]
  change (first :: more).foldlM PathProgress.take? (p.addLetter l) = _
  rw [List.foldlM_cons, List.foldlM_cons, take?_addLetter hl hstays hfirst]

end PathProgress

/-- A path is read exactly if all lexemes are in order and no number is missing in the end. -/
theorem Path.read_eq_ok_iff {α : Type} [Number α] {text : String} {path : Path α} :
    Path.read text = .ok path ↔
      ∃ p : PathProgress α,
        (PathLexeme.kinds text.toList).foldlM PathProgress.take? .initial = some p ∧
          p.owesNumber = false ∧ path = ⟨p.done.reverse⟩ := by
  rw [Path.read, PathLexeme.kinds, ← PathProgress.toOption_foldlM_step]
  cases (PathLexeme.scan 0 text.toList).foldlM PathProgress.step
      (PathProgress.initial : PathProgress α) with
  | error e =>
      constructor
      · intro h
        cases h
      · rintro ⟨p, hp, -⟩
        cases hp
  | ok p =>
      have hfinish : (Except.ok p >>= fun p => p.finish text.utf8ByteSize) =
          p.finish text.utf8ByteSize := rfl
      rw [hfinish, PathProgress.finish]
      cases howes : p.owesNumber with
      | true =>
          constructor
          · intro h
            cases h
          · rintro ⟨p', hp', hpaid, -⟩
            obtain rfl := Option.some.inj hp'
            rw [howes] at hpaid
            cases hpaid
      | false =>
          constructor
          · intro h
            exact ⟨p, rfl, howes, (Except.ok.inj h).symm⟩
          · rintro ⟨p', hp', -, rfl⟩
            obtain rfl := Option.some.inj hp'
            rfl

theorem Path.begins_of_read {α : Type} [Number α] {text : String} {path : Path α}
    (h : Path.read text = .ok path) :
    path.commands = [] ∨ ∃ q, path.commands.head? = some (.moveTo q) := by
  obtain ⟨p, hp, -, rfl⟩ := Path.read_eq_ok_iff.mp h
  have hbegins := (PathProgress.continues_initial.foldlM_take? hp).begins
  simpa [List.head?_reverse] using hbegins

/-- Where the reader stands after a path that is read and not closed: between two steps, with the
last letter in force, or what it goes on as. -/
theorem Path.exists_letter_of_read {α : Type} [Number α] {text : String} {path : Path α}
    {command : PathCommand α} (h : Path.read text = .ok path)
    (hlast : path.commands.getLast? = some command) (hopen : command ≠ .close) :
    ∃ (p : PathProgress α) (letter : Char),
      (PathLexeme.kinds text.toList).foldlM PathProgress.take? .initial = some p ∧
        PathLexeme.lastLetter? (PathLexeme.kinds text.toList) = some letter ∧
        p.Continues (some letter) ∧ p.letter = some (PathProgress.continued letter) ∧
        p.owesNumber = false ∧ p.done ≠ [] := by
  obtain ⟨p, hp, hpaid, rfl⟩ := Path.read_eq_ok_iff.mp h
  have hcontinues := PathProgress.continues_initial.foldlM_take? hp
  rw [Option.or_none] at hcontinues
  rw [List.getLast?_reverse] at hlast
  have hdone : p.done ≠ [] := by
    intro hnil
    rw [hnil] at hlast
    cases hlast
  obtain ⟨letter, hletter, hforce⟩ := hcontinues.letter_eq hpaid hlast hopen
  rw [hletter] at hcontinues
  exact ⟨p, letter, hp, hletter, hcontinues, hforce, hpaid, hdone⟩

/-- Numbers that follow a path are read as if the letter in force stood before them: the last one
written, or the line that goes on after a move. And a path that is read starts with a move. -/
theorem Path.read_repeats {α : Type} [Number α] :
    (∀ (text : String) (path : Path α), Path.read text = .ok path →
      path.commands = [] ∨ ∃ p, path.commands.head? = some (.moveTo p)) ∧
    ∀ (u v : String) (path : Path α) (command : PathCommand α) (c : Char),
      Path.read u = .ok path → path.commands.getLast? = some command → command ≠ .close →
      v.toList.head? = some c → PathLexeme.StartsNumber c →
      ∃ letter, PathLexeme.lastLetter? (PathLexeme.kinds u.toList) = some letter ∧
        ∀ P : Path α, Path.read (u ++ " " ++ v) = .ok P ↔
          Path.read (u ++ " " ++ String.singleton (PathProgress.continued letter) ++ " " ++ v) =
            .ok P := by
  refine ⟨fun text path h => Path.begins_of_read h, ?_⟩
  intro u v path command c hu hlast hopen hv hc
  obtain ⟨p, letter, hp, hletter, hcontinues, hforce, hpaid, hdone⟩ :=
    Path.exists_letter_of_read hu hlast hopen
  refine ⟨letter, hletter, fun P => ?_⟩
  obtain ⟨rest, hrest⟩ := List.head?_eq_some_iff.mp hv
  obtain ⟨first, more, hkinds, hfirst⟩ := PathLexeme.exists_kinds_cons hc rest
  have halpha : (PathProgress.continued letter).isAlpha = true :=
    PathProgress.isAlpha_of_mem_letters (hcontinues.inForce _ hforce).1
  have hplain : PathLexeme.kinds (u ++ " " ++ v).toList =
      PathLexeme.kinds u.toList ++ first :: more := by
    rw [← hkinds, ← hrest, ← PathLexeme.kinds_append_space]
    simp
  have hagain : PathLexeme.kinds
        (u ++ " " ++ String.singleton (PathProgress.continued letter) ++ " " ++ v).toList =
      PathLexeme.kinds u.toList ++ .letter (PathProgress.continued letter) :: first :: more := by
    rw [← hkinds, ← hrest, ← List.singleton_append, ← PathLexeme.kinds_letter halpha,
      ← PathLexeme.kinds_append_space, ← PathLexeme.kinds_append_space]
    simp
  have hsame := hcontinues.foldlM_letter_cons hpaid hdone hforce hfirst more
  rw [Path.read_eq_ok_iff, Path.read_eq_ok_iff, hplain, hagain, List.foldlM_append,
    List.foldlM_append, hp]
  change (∃ q, (first :: more).foldlM PathProgress.take? p = some q ∧ _) ↔
    ∃ q, (.letter (PathProgress.continued letter) :: first :: more).foldlM PathProgress.take? p =
      some q ∧ _
  rw [hsame]

section Rational

attribute [local instance] ExactNumber.rational

/-- A step after a move, with numbers that touch. -/
theorem Path.read_repeats_move :
    Path.read "m1 2" = .ok (⟨[.moveTo ⟨1, 2⟩]⟩ : Path ℚ) ∧
      Path.read "m1 2 -3.5.5e1" = .ok (⟨[.moveTo ⟨1, 2⟩, .lineTo ⟨-5 / 2, 7⟩]⟩ : Path ℚ) ∧
      ∃ letter, PathLexeme.lastLetter? (PathLexeme.kinds "m1 2".toList) = some letter ∧
        ∀ P : Path ℚ, Path.read ("m1 2" ++ " " ++ "-3.5.5e1") = .ok P ↔
          Path.read ("m1 2" ++ " " ++ String.singleton (PathProgress.continued letter) ++ " " ++
            "-3.5.5e1") = .ok P := by
  have hmove : Path.read "m1 2" = .ok (⟨[.moveTo ⟨1, 2⟩]⟩ : Path ℚ) := by decide +kernel
  refine ⟨hmove, by decide +kernel, ?_⟩
  exact Path.read_repeats.2 _ _ _ _ '-' hmove rfl (by decide) (by decide) (.inr (.inr (.inl rfl)))

end Rational

end PatternMarkup
