import Mathlib.Data.List.TakeWhile
import PatternMarkup.Formula.Pieces
import PatternMarkup.Proofs.Formula.Bracing
import PatternMarkup.Proofs.Markup.Tiling
/-!
The scanners of literals by byte offsets. They step through the bytes of a text, also through those
inside a character, look for signs of one byte, and take slices between the offsets they found. A
slice that starts or ends inside a character is a fault, and so is a brace that closes when none is
open. Main statements: no scanner has a fault, and each finds what the readers by characters find.
-/

namespace PatternMarkup

/-! ### Bytes -/

namespace Utf8

/-- The bytes of a text. -/
def bytes (text : List Char) : List UInt8 := text.flatMap String.utf8EncodeChar

/-- The character that is the byte at an offset, if it is one of a single byte. -/
def sign? (text : List Char) (i : Nat) : Option Char :=
  (bytes text)[i]?.bind fun b => if b.toNat < 128 then some (Char.ofNat b.toNat) else none

/-- The text from an offset on; a fault if the offset is inside a character or beyond the end. -/
def from? (text : List Char) (i : Nat) : Option (List Char) := (splitBytes? i text).map (·.2)

/-- The text between two offsets; a fault if one of them is inside a character or beyond the end,
or if they are in the wrong order. -/
def slice? (text : List Char) (start stop : Nat) : Option (List Char) :=
  if start ≤ stop then sliceBytes? text ⟨start, stop⟩ else none

@[simp] theorem length_bytes (text : List Char) : (bytes text).length = byteLength text := by
  induction text with
  | nil => rfl
  | cons c rest ih =>
      rw [bytes, List.flatMap_cons, List.length_append, String.length_utf8EncodeChar]
      exact congrArg (c.utf8Size + ·) ih

theorem bytes_append (front back : List Char) :
    bytes (front ++ back) = bytes front ++ bytes back := List.flatMap_append

/-- A character of one byte is its byte. -/
theorem utf8EncodeChar_of_lt {c : Char} (h : c.toNat < 128) :
    String.utf8EncodeChar c = [UInt8.ofNat c.toNat] := by
  have hval : c.val.toNat ≤ 127 := Nat.le_of_lt_succ h
  rw [String.utf8EncodeChar, if_pos hval]
  rfl

/-- The bytes of every other character are above those of single bytes. -/
theorem le_of_mem_utf8EncodeChar {c : Char} (h : 128 ≤ c.toNat) {b : UInt8}
    (hb : b ∈ String.utf8EncodeChar c) : 128 ≤ b.toNat := by
  have hval : ¬ c.val.toNat ≤ 127 := Nat.not_le.mpr h
  rw [String.utf8EncodeChar, if_neg hval] at hb
  split at hb
  · simp only [List.mem_cons, List.not_mem_nil, or_false] at hb
    rcases hb with rfl | rfl <;> rw [UInt8.toNat_ofNat'] <;> omega
  · split at hb
    · simp only [List.mem_cons, List.not_mem_nil, or_false] at hb
      rcases hb with rfl | rfl | rfl <;> rw [UInt8.toNat_ofNat'] <;> omega
    · simp only [List.mem_cons, List.not_mem_nil, or_false] at hb
      rcases hb with rfl | rfl | rfl | rfl <;> rw [UInt8.toNat_ofNat'] <;> omega

theorem utf8Size_of_lt {c : Char} (h : c.toNat < 128) : c.utf8Size = 1 := by
  rw [← String.length_utf8EncodeChar, utf8EncodeChar_of_lt h]
  rfl

theorem sign?_append (front rest : List Char) (i : Nat) :
    sign? (front ++ rest) (byteLength front + i) = sign? rest i := by
  rw [sign?, bytes_append, List.getElem?_append_right (by simp), length_bytes,
    Nat.add_sub_cancel_left]
  rfl

/-- At no byte of a character of several bytes stands a sign. -/
theorem sign?_wide {c : Char} (h : 128 ≤ c.toNat) (rest : List Char) {i : Nat}
    (hi : i < c.utf8Size) : sign? (c :: rest) i = none := by
  have hlength : i < (String.utf8EncodeChar c).length := by
    rw [String.length_utf8EncodeChar]
    exact hi
  have hbyte : (bytes (c :: rest))[i]? = some (String.utf8EncodeChar c)[i] := by
    rw [bytes, List.flatMap_cons, List.getElem?_append_left hlength,
      List.getElem?_eq_getElem hlength]
  have hle := le_of_mem_utf8EncodeChar h (List.getElem_mem hlength)
  rw [sign?, hbyte, Option.bind_some, if_neg (by omega)]

/-- At the start of a character stands the character itself, if it is of one byte. -/
theorem sign?_cons_zero (c : Char) (rest : List Char) :
    sign? (c :: rest) 0 = if c.toNat < 128 then some c else none := by
  split
  · rename_i h
    have hbytes : bytes (c :: rest) = UInt8.ofNat c.toNat :: bytes rest := by
      rw [bytes, List.flatMap_cons, utf8EncodeChar_of_lt h]
      rfl
    have hbyte : (UInt8.ofNat c.toNat).toNat = c.toNat := by
      rw [UInt8.toNat_ofNat']
      omega
    rw [sign?, hbytes, List.getElem?_cons_zero, Option.bind_some, hbyte, if_pos h,
      Char.ofNat_toNat]
  · rename_i h
    exact sign?_wide (Nat.not_lt.mp h) rest c.utf8Size_pos

theorem sign?_at (front : List Char) (c : Char) (rest : List Char) :
    sign? (front ++ c :: rest) (byteLength front) = if c.toNat < 128 then some c else none :=
  (sign?_append front (c :: rest) 0).trans (sign?_cons_zero c rest)

theorem of_sign?_at {p : Char → Prop} {front rest : List Char} {c : Char} (hc : p c) (d : Char)
    (hd : sign? (front ++ c :: rest) (byteLength front) = some d) : p d := by
  rw [sign?_at] at hd
  split at hd
  · cases hd
    exact hc
  · cases hd

/-- Inside a character stands no sign. -/
theorem sign?_inside (c : Char) (rest : List Char) {i : Nat} (hpos : 0 < i)
    (hi : i < c.utf8Size) : sign? (c :: rest) i = none := by
  refine sign?_wide (Nat.not_lt.mp fun h => ?_) rest hi
  rw [utf8Size_of_lt h] at hi
  omega

/-! ### Slices -/

theorem from?_append (front rest : List Char) :
    from? (front ++ rest) (byteLength front) = some rest := by
  rw [from?, splitBytes?_append]
  rfl

theorem slice?_append (front piece rest : List Char) :
    slice? (front ++ (piece ++ rest)) (byteLength front) (byteLength front + byteLength piece) =
      some piece := by
  rw [slice?, if_pos (Nat.le_add_right _ _), sliceBytes?_append]

theorem slice?_after (front piece : List Char) (c : Char) (rest : List Char) :
    slice? (front ++ c :: (piece ++ rest)) (byteLength front + c.utf8Size)
      (byteLength front + c.utf8Size + byteLength piece) = some piece := by
  have hslice := slice?_append (front ++ [c]) piece rest
  rw [byteLength_append, byteLength_cons, byteLength_nil, List.append_assoc] at hslice
  exact hslice

/-! ### Scanners -/

/-- The offset of the brace that closes a formula, by the characters from the byte `i` on. `depth`
counts the braces that are open, `quote` is the quote that is open, and `escaped` tells that a
backslash stands before. A brace that closes when none is open is a fault. -/
def closeAt (depth : Nat) (quote : Option Char) (escaped : Bool) (i : Nat) :
    List Char → Option (Option Nat)
  | [] => some none
  | c :: rest =>
      let next := i + c.utf8Size
      match quote with
      | some q =>
          if escaped then closeAt depth quote false next rest
          else if c = '\\' then closeAt depth quote true next rest
          else if c = q then closeAt depth none false next rest
          else closeAt depth quote false next rest
      | none =>
          if c = '"' ∨ c = '\'' then closeAt depth (some c) escaped next rest
          else if c = '\x7b' then closeAt (depth + 1) none escaped next rest
          else if c = '\x7d' then
            match depth with
            | 0 => none
            | 1 => some (some i)
            | d + 2 => closeAt (d + 1) none escaped next rest
          else closeAt depth none escaped next rest

/-- The offset of the brace that closes the one at the byte `first`. -/
def findClose (text : List Char) (first : Nat) : Option (Option Nat) := do
  closeAt 0 none false first (← from? text first)

/-- The formula between the braces that enclose all of a text, blanks aside. -/
def braced (text : Fragment) : Option (Option Fragment) := do
  let start := byteLength text.chars - byteLength (trimStart text.chars)
  let stop := byteLength (trimEnd text.chars)
  if stop ≤ start then return none
  let rest ← from? text.chars start
  if rest.head? ≠ some '\x7b' then return none
  match ← findClose text.chars start with
  | none => return none
  | some close =>
      if close + 1 = stop then
        let inner ← slice? text.chars (start + 1) close
        return some ⟨text.offset + start + 1, inner⟩
      else return none

/-- The item that ends at the byte `stop`, if one has started. -/
def flush (text : Fragment) (start : Option Nat) (stop : Nat) : Option (List Fragment) :=
  match start with
  | none => some []
  | some s => (slice? text.chars s stop).map fun item => [⟨text.offset + s, item⟩]

/-- The items of a text from the byte `i` on. `start` is where the current item started, and `comma`
tells that a comma came after the item before. Going back is a fault. -/
def splitItems (text : Fragment) (start : Option Nat) (comma : Bool) (i : Nat) :
    Option (List Fragment) :=
  if _hend : byteLength text.chars ≤ i then flush text start (byteLength text.chars)
  else
    match sign? text.chars i with
    | some ',' => do
        let empty : List Fragment :=
          if start.isNone && comma then [⟨text.offset + i, []⟩] else []
        let item ← flush text start i
        return empty ++ item ++ (← splitItems text none true (i + 1))
    | some ' ' | some '\t' | some '\n' | some '\r' => do
        let item ← flush text start i
        return item ++ (← splitItems text none comma (i + 1))
    | some '\x7b' => do
        let next :=
          match ← findClose text.chars i with
          | some close => close + 1
          | none => byteLength text.chars
        if _hnext : i < next then splitItems text (some (start.getD i)) false next else none
    | _ => splitItems text (some (start.getD i)) false (i + 1)
termination_by byteLength text.chars - i

/-- The offset of the parenthesis that closes, from the byte `i` on. -/
def closeParenAt (text : List Char) (i : Nat) : Option (Option Nat) :=
  if _hend : byteLength text ≤ i then some none
  else
    match sign? text i with
    | some ')' => some (some i)
    | some '\x7b' => do
        match ← findClose text i with
        | none => return none
        | some close => if _hnext : i ≤ close then closeParenAt text (close + 1) else none
    | _ => closeParenAt text (i + 1)
termination_by byteLength text - i

/-- The first offset from the byte `i` on at which no sign of a kind stands. -/
def skip (kind : Char → Bool) (text : List Char) (i : Nat) : Nat :=
  if _hend : byteLength text ≤ i then i
  else if (sign? text i).any kind then skip kind text (i + 1) else i
termination_by byteLength text - i

/-! ### Closing braces -/

/-- Where a cut of the text from the byte `i` on ends its first part. -/
def cutAt (i : Nat) (cut : Option (List Char × List Char)) : Option Nat :=
  cut.map fun parts => i + byteLength parts.1

theorem cutAt_addFront (i : Nat) (c : Char) (cut : Option (List Char × List Char)) :
    cutAt i (addFront c cut) = cutAt (i + c.utf8Size) cut := by
  cases cut with
  | none => rfl
  | some parts => exact congrArg some (Nat.add_assoc i c.utf8Size (byteLength parts.1)).symm

theorem le_of_cutAt {i stop : Nat} {cut : Option (List Char × List Char)}
    (h : cutAt i cut = some stop) : i ≤ stop := by
  obtain ⟨parts, -, rfl⟩ := Option.map_eq_some_iff.mp h
  exact Nat.le_add_right _ _

/-- The closing brace that is found by offsets is the one found by characters. While it is looked
for one brace more is open than are opened on the way, so the count never falls below one. -/
theorem closeAt_eq (depth : Nat) (quote : Option Char) (i : Nat) (text : List Char) :
    closeAt (depth + 1) quote false i text = some (cutAt i (closeBrace depth quote text)) := by
  fun_induction closeBrace depth quote text generalizing i with
  | case1 => rfl
  | case2 depth q => rfl
  | case3 depth q d rest ih =>
      rw [cutAt_addFront, cutAt_addFront]
      exact ih _
  | case4 depth rest q hq ih =>
      rw [cutAt_addFront]
      simp only [closeAt, Bool.false_eq_true, if_false, if_neg hq, if_true, ih]
  | case5 depth d rest q hescape hclose ih =>
      rw [cutAt_addFront]
      simp only [closeAt, Bool.false_eq_true, if_false, if_neg hescape, if_neg hclose, ih]
  | case6 depth d rest hquote ih =>
      rw [cutAt_addFront]
      simp only [closeAt, if_pos hquote, ih]
  | case7 depth rest _ ih =>
      rw [cutAt_addFront]
      exact ih _
  | case8 rest => rfl
  | case9 rest d _ _ ih =>
      rw [cutAt_addFront]
      exact ih _
  | case10 depth d rest hquote hopen hclose ih =>
      rw [cutAt_addFront]
      simp only [closeAt, if_neg hquote, if_neg hopen, if_neg hclose, ih]

/-- At an opening brace. -/
theorem findClose_eq (front rest : List Char) :
    findClose (front ++ '\x7b' :: rest) (byteLength front) =
      some (cutAt (byteLength front + 1) (closeBrace 0 none rest)) := by
  rw [findClose, from?_append]
  exact closeAt_eq 0 none (byteLength front + 1) rest

end Utf8

/-- A cut of a text is also one of the text with more behind it; if there is none, the longer text
is cut beyond the text only. -/
def KeepsCut (text back : List Char) (cut longer : Option (List Char × List Char)) : Prop :=
  match cut with
  | some (inner, after) => longer = some (inner, after ++ back)
  | none => ∀ inner after, longer = some (inner, after) → text <+: inner

theorem KeepsCut.addFront {text back : List Char} {cut longer : Option (List Char × List Char)}
    (h : KeepsCut text back cut longer) (c : Char) :
    KeepsCut (c :: text) back (addFront c cut) (addFront c longer) := by
  cases cut with
  | some parts =>
      obtain rfl : longer = _ := h
      rfl
  | none =>
      intro inner after hlonger
      obtain ⟨rest, hrest, rfl⟩ := addFront_eq_some.mp hlonger
      exact List.cons_prefix_cons.mpr ⟨rfl, h rest after hrest⟩

theorem closeBrace_append (depth : Nat) (quote : Option Char) (text back : List Char) :
    KeepsCut text back (closeBrace depth quote text) (closeBrace depth quote (text ++ back)) := by
  fun_induction closeBrace depth quote text with
  | case1 => exact fun inner _ _ => List.nil_prefix
  | case2 depth q =>
      intro inner after h
      cases back with
      | nil => cases h
      | cons c back =>
          obtain ⟨rest, -, rfl⟩ := addFront_eq_some.mp h
          exact List.cons_prefix_cons.mpr ⟨rfl, List.nil_prefix⟩
  | case3 depth q d rest ih => exact (ih.addFront d).addFront '\\'
  | case4 depth rest q hq ih =>
      rw [List.cons_append, closeBrace_quoted hq, if_pos rfl]
      exact ih.addFront q
  | case5 depth d rest q hescape hclose ih =>
      rw [List.cons_append, closeBrace_quoted hescape, if_neg hclose]
      exact ih.addFront d
  | case6 depth d rest hquote ih =>
      rw [List.cons_append]
      simp only [closeBrace, if_pos hquote]
      exact ih.addFront d
  | case7 depth rest _ ih => exact ih.addFront '\x7b'
  | case8 rest => rfl
  | case9 rest d _ _ ih => exact ih.addFront '\x7d'
  | case10 depth d rest hquote hopen hclose ih =>
      rw [List.cons_append]
      simp only [closeBrace, if_neg hquote, if_neg hopen, if_neg hclose]
      exact ih.addFront d

/-! ### Braces around a text -/

theorem trimEnd_append (front : List Char) {text : List Char} (h : trimEnd text ≠ []) :
    trimEnd (front ++ text) = front ++ trimEnd text := by
  have hkept : (text.reverse.dropWhile isBlank).isEmpty = false := by
    rw [List.isEmpty_eq_false_iff]
    exact fun hnil => h (congrArg List.reverse hnil)
  rw [trimEnd, List.reverse_append, List.dropWhile_append, hkept]
  simp [trimEnd]

/-- The blanks at the end of a text. -/
def blanksAfter (text : List Char) : List Char := (text.reverse.takeWhile isBlank).reverse

theorem trimEnd_append_blanksAfter (text : List Char) :
    trimEnd text ++ blanksAfter text = text := by
  rw [trimEnd, blanksAfter, ← List.reverse_append, List.takeWhile_append_dropWhile,
    List.reverse_reverse]

theorem trimStart_eq (text : List Char) : text.takeWhile isBlank ++ trimStart text = text :=
  List.takeWhile_append_dropWhile

/-- A text of nothing but blanks has none but blanks in front. -/
theorem trimStart_of_trim {text : List Char} (h : trim text = []) : trimStart text = [] := by
  have hblank : ∀ c ∈ trimStart text, isBlank c = true := by
    have hnil : (trimStart text).reverse.dropWhile isBlank = [] := by
      simpa [trim, trimEnd] using h
    simpa using List.dropWhile_eq_nil_iff.mp hnil
  cases hstart : trimStart text with
  | nil => rfl
  | cons c rest =>
      have hc := hblank c (by rw [hstart]; exact List.mem_cons_self)
      have hhead := List.head?_dropWhile_not isBlank text
      rw [trimStart] at hstart
      rw [hstart] at hhead
      simp [hc] at hhead

/-- A text with more than blanks is that with blanks on either side. -/
theorem exists_of_trim_cons {text rest : List Char} {c : Char} (h : trim text = c :: rest) :
    ∃ back, text = text.takeWhile isBlank ++ c :: (rest ++ back) ∧
      trimStart text = c :: (rest ++ back) ∧
      trimEnd text = text.takeWhile isBlank ++ c :: rest := by
  have hstart : trimStart text = c :: (rest ++ blanksAfter (trimStart text)) := by
    rw [← List.cons_append, ← h]
    exact (trimEnd_append_blanksAfter _).symm
  have hne : trimEnd (trimStart text) ≠ [] := by
    rw [← trim, h]
    exact List.cons_ne_nil c rest
  refine ⟨blanksAfter (trimStart text), ?_, hstart, ?_⟩
  · rw [← hstart]
    exact (trimStart_eq text).symm
  · rw [← h, trim, ← trimEnd_append _ hne, trimStart_eq]

namespace Utf8

theorem braced_of_trim_nil {offset : Nat} {chars : List Char} (h : trim chars = []) :
    braced ⟨offset, chars⟩ = some none := by
  have hend := congrArg byteLength (trimEnd_append_blanksAfter chars)
  rw [byteLength_append] at hend
  have hstop : byteLength (trimEnd chars) ≤ byteLength chars - byteLength (trimStart chars) := by
    rw [trimStart_of_trim h, byteLength_nil]
    omega
  rw [braced]
  simp only [if_pos hstop]
  rfl

theorem braced_of_trim_cons {offset : Nat} {front rest back : List Char} {c : Char}
    (hstart : trimStart (front ++ c :: (rest ++ back)) = c :: (rest ++ back))
    (hend : trimEnd (front ++ c :: (rest ++ back)) = front ++ c :: rest) :
    braced ⟨offset, front ++ c :: (rest ++ back)⟩ = some (
      if c = '\x7b' then
        match closeBrace 0 none rest with
        | some (inner, []) => some ⟨offset + byteLength front + 1, inner⟩
        | _ => none
      else none) := by
  have hfirst : byteLength (front ++ c :: (rest ++ back)) -
      byteLength (c :: (rest ++ back)) = byteLength front := by
    rw [byteLength_append, Nat.add_sub_cancel]
  have hlast : ¬ byteLength (front ++ c :: rest) ≤ byteLength front := by
    have hsize := c.utf8Size_pos
    rw [byteLength_append, byteLength_cons]
    omega
  rw [braced]
  simp only [hstart, hend, hfirst, if_neg hlast, from?_append, Option.bind_eq_bind,
    Option.bind_some, List.head?_cons, ne_eq, Option.some.injEq]
  by_cases hc : c = '\x7b'
  · subst hc
    have hkeeps := closeBrace_append 0 none rest back
    have hopen : Char.utf8Size '\x7b' = 1 := rfl
    have hclose : Char.utf8Size '\x7d' = 1 := rfl
    simp only [not_true_eq_false, if_false, if_true, findClose_eq, Option.bind_some]
    cases hcut : closeBrace 0 none rest with
    | some parts =>
        obtain ⟨inner, after⟩ := parts
        rw [hcut] at hkeeps
        have hlonger : closeBrace 0 none (rest ++ back) = some (inner, after ++ back) := hkeeps
        rw [hlonger]
        obtain rfl := eq_append_of_closeBrace hcut
        cases after with
        | nil =>
            have hslice := slice?_after front inner '\x7b' ('\x7d' :: back)
            rw [List.append_cons inner, hopen] at hslice
            have hstop : byteLength front + 1 + byteLength inner + 1 =
                byteLength (front ++ '\x7b' :: (inner ++ ['\x7d'])) := by
              simp only [byteLength_append, byteLength_cons, byteLength_nil, hopen, hclose]
              omega
            simp only [cutAt, Option.map_some, if_pos hstop, hslice]
            rfl
        | cons d after =>
            have hsize := d.utf8Size_pos
            simp only [cutAt, Option.map_some]
            rw [if_neg (by simp only [byteLength_append, byteLength_cons, hopen, hclose]; omega)]
            rfl
    | none =>
        rw [hcut] at hkeeps
        cases hlonger : closeBrace 0 none (rest ++ back) with
        | none => rfl
        | some parts =>
            have hprefix := hkeeps parts.1 parts.2 hlonger
            obtain ⟨more, hmore⟩ := hprefix
            have hlength := congrArg byteLength hmore
            rw [byteLength_append] at hlength
            simp only [cutAt, Option.map_some]
            rw [if_neg (by simp only [byteLength_append, byteLength_cons, hopen]; omega)]
            rfl
  · simp only [hc, not_false_eq_true, if_true]
    rfl

/-- The formula between the braces around a text is found without a fault. -/
theorem braced_eq (text : Fragment) : braced text = some text.braced? := by
  obtain ⟨offset, chars⟩ := text
  cases htrim : trim chars with
  | nil =>
      rw [braced_of_trim_nil htrim, Fragment.braced?]
      simp only [htrim]
  | cons c rest =>
      obtain ⟨back, hchars, hstart, hend⟩ := exists_of_trim_cons htrim
      rw [Fragment.braced?]
      simp only [htrim]
      generalize chars.takeWhile isBlank = front at *
      subst hchars
      rw [braced_of_trim_cons hstart hend]
      split
      · rename_i hc
        subst hc
        rfl
      · rename_i hc
        split
        · rename_i hopen
          exact absurd (List.cons.inj hopen).1 hc
        · rfl

/-! ### Items -/

/-- What the scanner keeps of the current item: where it starts. `item` holds its characters, the
last one first, and `before` all characters up to its end. -/
def Holds (before item : List Char) (start : Option Nat) : Prop :=
  match start with
  | none => item = []
  | some s => item ≠ [] ∧ ∃ front, before = front ++ item.reverse ∧ s = byteLength front

theorem flush_eq {base first : Nat} {before item : List Char} {start : Option Nat}
    (h : Holds before item start) (hfirst : ∀ s, start = some s → first = base + s)
    (rest : List Char) :
    flush ⟨base, before ++ rest⟩ start (byteLength before) = some (pieceOf first item) := by
  cases start with
  | none =>
      obtain rfl : item = [] := h
      rfl
  | some s =>
      obtain ⟨hne, front, rfl, rfl⟩ := h
      have hslice := slice?_append front item.reverse rest
      rw [← byteLength_append, ← List.append_assoc] at hslice
      rw [flush, hslice, hfirst _ rfl, pieceOf, List.isEmpty_eq_false_iff.mpr hne]
      rfl

/-- Whether a sign stands between items besides a comma. -/
def IsGap (c : Char) : Prop := c = ' ' ∨ c = '\t' ∨ c = '\n' ∨ c = '\r'

section Steps

variable {text : Fragment} {i : Nat} (start : Option Nat) (comma : Bool)

theorem splitItems_end (hi : byteLength text.chars ≤ i) :
    splitItems text start comma i = flush text start (byteLength text.chars) := by
  rw [splitItems, dif_pos hi]

theorem splitItems_comma (hi : i < byteLength text.chars) (hsign : sign? text.chars i = some ',')
    {item later : List Fragment} (hitem : flush text start i = some item)
    (hlater : splitItems text none true (i + 1) = some later) :
    splitItems text start comma i = some
      ((if start.isNone && comma then [⟨text.offset + i, []⟩] else []) ++ item ++ later) := by
  rw [splitItems, dif_neg (Nat.not_le.mpr hi), hsign]
  simp only [hitem, hlater]
  rfl

theorem splitItems_gap (hi : i < byteLength text.chars) {c : Char} (hc : IsGap c)
    (hsign : sign? text.chars i = some c) {item later : List Fragment}
    (hitem : flush text start i = some item)
    (hlater : splitItems text none comma (i + 1) = some later) :
    splitItems text start comma i = some (item ++ later) := by
  rw [splitItems, dif_neg (Nat.not_le.mpr hi), hsign]
  rcases hc with rfl | rfl | rfl | rfl <;>
    simp only [hitem, hlater] <;> rfl

theorem splitItems_brace (hi : i < byteLength text.chars) (hsign : sign? text.chars i = some '\x7b')
    {close : Option Nat} (hclose : findClose text.chars i = some close)
    {next : Nat} (hnext : (close.map (· + 1)).getD (byteLength text.chars) = next)
    (hlt : i < next) :
    splitItems text start comma i = splitItems text (some (start.getD i)) false next := by
  rw [splitItems, dif_neg (Nat.not_le.mpr hi), hsign]
  simp only [hclose]
  subst hnext
  cases close with
  | none => exact dif_pos hlt
  | some close => exact dif_pos hlt

theorem splitItems_ordinary (hi : i < byteLength text.chars)
    (hsign : ∀ c, sign? text.chars i = some c → c ≠ '\x7b' ∧ c ≠ ',' ∧ ¬ IsGap c) :
    splitItems text start comma i = splitItems text (some (start.getD i)) false (i + 1) := by
  rw [splitItems, dif_neg (Nat.not_le.mpr hi)]
  cases h : sign? text.chars i with
  | none => rfl
  | some c =>
      obtain ⟨hopen, hcomma, hgap⟩ := hsign c h
      split
      case h_1 heq => exact absurd (Option.some.inj heq) hcomma
      case h_2 heq => exact absurd (.inl (Option.some.inj heq)) hgap
      case h_3 heq => exact absurd (.inr (.inl (Option.some.inj heq))) hgap
      case h_4 heq => exact absurd (.inr (.inr (.inl (Option.some.inj heq)))) hgap
      case h_5 heq => exact absurd (.inr (.inr (.inr (Option.some.inj heq)))) hgap
      case h_6 heq => exact absurd (Option.some.inj heq) hopen
      case h_7 => rfl

end Steps

/-- What is the same from each byte inside a character on is the same after it. -/
theorem eq_after {β : Type} {scan : Nat → β} {first : Nat} {c : Char}
    (h : ∀ i, 0 < i → i < c.utf8Size → scan (first + i) = scan (first + i + 1)) :
    scan (first + 1) = scan (first + c.utf8Size) := by
  have hfrom : ∀ i, i < c.utf8Size → scan (first + 1) = scan (first + (i + 1)) := by
    intro i hi
    induction i with
    | zero => rfl
    | succ i ih => exact (ih (Nat.lt_of_succ_lt hi)).trans (h (i + 1) (Nat.succ_pos i) hi)
  have hpos := c.utf8Size_pos
  have hlast := hfrom (c.utf8Size - 1) (by omega)
  rwa [Nat.sub_add_cancel hpos] at hlast

theorem lt_of_inside (before rest : List Char) {c : Char} {i : Nat} (hi : i < c.utf8Size) :
    byteLength before + i < byteLength (before ++ c :: rest) := by
  rw [byteLength_append, byteLength_cons]
  omega

theorem sign?_append_inside (before rest : List Char) {c : Char} {i : Nat} (hpos : 0 < i)
    (hi : i < c.utf8Size) : sign? (before ++ c :: rest) (byteLength before + i) = none := by
  rw [sign?_append, sign?_inside c rest hpos hi]

/-- The bytes inside a character are passed over. -/
theorem splitItems_inside (base : Nat) (before rest : List Char) (c : Char) (s : Nat) :
    splitItems ⟨base, before ++ c :: rest⟩ (some s) false (byteLength before + 1) =
      splitItems ⟨base, before ++ c :: rest⟩ (some s) false (byteLength before + c.utf8Size) := by
  refine eq_after fun i hpos hi => ?_
  have hsign := sign?_append_inside before rest hpos hi
  exact splitItems_ordinary (some s) false (lt_of_inside before rest hi) (by rw [hsign]; nofun)

/-- The item goes on. -/
theorem Holds.append {before item more : List Char} {start : Option Nat}
    (h : Holds before item start) (hmore : more ≠ []) :
    Holds (before ++ more) (more.reverse ++ item) (some (start.getD (byteLength before))) := by
  refine ⟨List.append_ne_nil_of_left_ne_nil (by simpa using hmore) item, ?_⟩
  cases start with
  | none =>
      obtain rfl : item = [] := h
      exact ⟨before, by simp, rfl⟩
  | some s =>
      obtain ⟨-, front, rfl, rfl⟩ := h
      exact ⟨front, by simp, rfl⟩

theorem Holds.pieceStart_eq {base first : Nat} {before item : List Char} {start : Option Nat}
    (h : Holds before item start) (hfirst : ∀ s, start = some s → first = base + s) :
    pieceStart first item (base + byteLength before) = base + start.getD (byteLength before) := by
  cases start with
  | none =>
      obtain rfl : item = [] := h
      rfl
  | some s =>
      rw [pieceStart, List.isEmpty_eq_false_iff.mpr h.1, hfirst s rfl]
      rfl

/-- Where the item starts that goes on. -/
theorem Holds.starts {base first offset : Nat} {before item : List Char} {start : Option Nat}
    (h : Holds before item start) (hfirst : ∀ s, start = some s → first = base + s)
    (hoffset : offset = base + byteLength before) (s : Nat)
    (hs : some (start.getD (byteLength before)) = some s) :
    pieceStart first item offset = base + s := by
  rw [← Option.some.inj hs, ← h.pieceStart_eq hfirst, ← hoffset]

theorem Holds.isNone_eq {before item : List Char} {start : Option Nat}
    (h : Holds before item start) : start.isNone = item.isEmpty := by
  cases start with
  | none =>
      obtain rfl : item = [] := h
      rfl
  | some s => exact (List.isEmpty_eq_false_iff.mpr h.1).symm

theorem byteLength_concat (before : List Char) (c : Char) :
    byteLength (before ++ [c]) = byteLength before + c.utf8Size := by
  rw [byteLength_append, byteLength_cons, byteLength_nil, Nat.add_zero]

theorem byteLength_concat_braced (before inner : List Char) :
    byteLength (before ++ '\x7b' :: (inner ++ ['\x7d'])) =
      byteLength before + 1 + byteLength inner + 1 := by
  rw [byteLength_append, byteLength_cons, byteLength_concat, ← Nat.add_assoc, ← Nat.add_assoc]
  rfl

theorem lt_byteLength (before : List Char) (c : Char) (rest : List Char) :
    byteLength before < byteLength (before ++ c :: rest) := by
  have hsize := c.utf8Size_pos
  rw [byteLength_append, byteLength_cons]
  omega

/-- From a place between two characters on, the items that are found by bytes are those found by
characters, and no slice is a fault. -/
theorem splitItems_eq (base : Nat) {before rest item : List Char} {start : Option Nat}
    {first offset : Nat} {comma : Bool} (h : Holds before item start)
    (hfirst : ∀ s, start = some s → first = base + s)
    (hoffset : offset = base + byteLength before) :
    splitItems ⟨base, before ++ rest⟩ start comma (byteLength before) =
      some (piecesFrom first item comma offset rest) := by
  fun_induction piecesFrom first item comma offset rest generalizing before start with
  | case1 first item comma offset =>
      have hflush := flush_eq h hfirst []
      rw [List.append_nil] at *
      rw [splitItems_end start comma (Nat.le_refl _)]
      exact hflush
  | case2 first item comma offset rest begin =>
      rename_i hclose
      have hlt := lt_byteLength before '\x7b' rest
      have hflush := flush_eq (h.append (List.cons_ne_nil '\x7b' rest)) (h.starts hfirst hoffset) []
      rw [List.append_nil] at hflush
      rw [splitItems_brace start comma hlt (sign?_at before '\x7b' rest)
        ((findClose_eq before rest).trans (by rw [hclose])) rfl hlt]
      refine (splitItems_end _ false (Nat.le_refl _)).trans ?_
      simpa using hflush
  | case3 first item comma offset rest begin inner after =>
      rename_i hclose ih
      have hlt := lt_byteLength before '\x7b' rest
      obtain rfl := eq_append_of_closeBrace hclose
      have hitem : Holds (before ++ '\x7b' :: (inner ++ ['\x7d']))
          ('\x7d' :: (inner.reverse ++ '\x7b' :: item))
          (some (start.getD (byteLength before))) := by
        simpa using h.append (List.cons_ne_nil '\x7b' (inner ++ ['\x7d']))
      have hnext := byteLength_concat_braced before inner
      have hlater := ih hitem (h.starts hfirst hoffset) (by rw [hnext, hoffset]; omega)
      rw [hnext, List.append_assoc, List.cons_append, ← List.append_cons] at hlater
      rw [splitItems_brace start comma hlt (sign?_at before '\x7b' _)
        ((findClose_eq before _).trans (by rw [hclose])) rfl
        (by simp only [cutAt, Option.map_some, Option.getD_some]; omega)]
      exact hlater
  | case4 first item comma offset rest empty =>
      rename_i ih
      have hlater := @ih (before ++ [',']) none rfl nofun (by
        rw [byteLength_concat, hoffset]
        rfl)
      rw [byteLength_concat, ← List.append_cons] at hlater
      rw [splitItems_comma start comma (lt_byteLength before ',' rest) (sign?_at before ',' rest)
        (flush_eq h hfirst _) hlater, h.isNone_eq, ← hoffset]
      rfl
  | case5 first item comma offset c rest hopen hcomma hgap ih =>
      have hsize : c.utf8Size = 1 := by rcases hgap with rfl | rfl | rfl | rfl <;> rfl
      have hlow : c.toNat < 128 := by rcases hgap with rfl | rfl | rfl | rfl <;> decide
      have hlater := @ih (before ++ [c]) none rfl nofun (by
        rw [byteLength_concat, hsize, hoffset]
        rfl)
      rw [byteLength_concat, hsize, ← List.append_cons] at hlater
      exact splitItems_gap start comma (lt_byteLength before c rest) hgap
        ((sign?_at before c rest).trans (if_pos hlow)) (flush_eq h hfirst _) hlater
  | case6 first item comma offset c rest hopen hcomma hgap ih =>
      have hlt := lt_byteLength before c rest
      have hitem := h.append (List.cons_ne_nil c [])
      have hlater := @ih (before ++ [c]) _ hitem (h.starts hfirst hoffset) (by
        rw [byteLength_concat, hoffset, Nat.add_assoc])
      rw [byteLength_concat, ← List.append_cons] at hlater
      have hordinary : c ≠ '\x7b' ∧ c ≠ ',' ∧ ¬ IsGap c := ⟨hopen, hcomma, hgap⟩
      rw [splitItems_ordinary start comma hlt (of_sign?_at hordinary),
        splitItems_inside base before rest c]
      exact hlater

/-- The items of a text are found without a fault. -/
theorem splitItems_pieces (text : Fragment) :
    splitItems text none false 0 = some text.pieces := by
  have hitems : splitItems ⟨text.offset, [] ++ text.chars⟩ none false (byteLength []) =
      some (piecesFrom text.offset [] false text.offset text.chars) :=
    splitItems_eq text.offset rfl nofun rfl
  exact hitems

/-! ### Closing parentheses -/

theorem closeParenAt_ordinary {text : List Char} {i : Nat} (hi : i < byteLength text)
    (hsign : ∀ c, sign? text i = some c → c ≠ ')' ∧ c ≠ '\x7b') :
    closeParenAt text i = closeParenAt text (i + 1) := by
  rw [closeParenAt, dif_neg (Nat.not_le.mpr hi)]
  cases h : sign? text i with
  | none => rfl
  | some c =>
      obtain ⟨hclose, hopen⟩ := hsign c h
      split
      case h_1 heq => exact absurd (Option.some.inj heq) hclose
      case h_2 heq => exact absurd (Option.some.inj heq) hopen
      case h_3 => rfl

theorem closeParenAt_inside (before rest : List Char) (c : Char) :
    closeParenAt (before ++ c :: rest) (byteLength before + 1) =
      closeParenAt (before ++ c :: rest) (byteLength before + c.utf8Size) := by
  refine eq_after fun i hpos hi => ?_
  have hsign := sign?_append_inside before rest hpos hi
  exact closeParenAt_ordinary (lt_of_inside before rest hi) (by rw [hsign]; nofun)

theorem closeParenAt_brace {text : List Char} {i : Nat} (hi : i < byteLength text)
    (hsign : sign? text i = some '\x7b') {close : Option Nat}
    (hclose : findClose text i = some close) (hle : ∀ c, close = some c → i ≤ c) :
    closeParenAt text i =
      match close with
      | none => some none
      | some c => closeParenAt text (c + 1) := by
  rw [closeParenAt, dif_neg (Nat.not_le.mpr hi), hsign]
  simp only [hclose]
  cases close with
  | none => rfl
  | some c => exact dif_pos (hle c rfl)

/-- From a place between two characters on, the parenthesis that closes is found without a fault. -/
theorem closeParenAt_eq (before rest : List Char) :
    closeParenAt (before ++ rest) (byteLength before) =
      some (cutAt (byteLength before) (closeParen rest)) := by
  fun_induction closeParen rest generalizing before with
  | case1 =>
      rw [closeParenAt, dif_pos (by rw [List.append_nil])]
      rfl
  | case2 rest =>
      have hlt := lt_byteLength before ')' rest
      rw [closeParenAt, dif_neg (Nat.not_le.mpr hlt), sign?_at]
      rfl
  | case3 rest hclose =>
      rw [closeParenAt_brace (lt_byteLength before '\x7b' rest) (sign?_at before '\x7b' rest)
        ((findClose_eq before rest).trans (by rw [hclose])) (fun c hc => by cases hc)]
      rfl
  | case4 rest inner after hclose ih =>
      obtain rfl := eq_append_of_closeBrace hclose
      have hnext := byteLength_concat_braced before inner
      have hlater := ih (before ++ '\x7b' :: (inner ++ ['\x7d']))
      rw [hnext, List.append_assoc, List.cons_append, ← List.append_cons] at hlater
      rw [closeParenAt_brace (lt_byteLength before '\x7b' _) (sign?_at before '\x7b' _)
        ((findClose_eq before _).trans (by rw [hclose]))
        (fun c hc => Nat.le_of_succ_le (le_of_cutAt hc))]
      refine hlater.trans (congrArg some ?_)
      cases closeParen after with
      | none => rfl
      | some parts =>
          refine congrArg some ?_
          have hbraces : Char.utf8Size '\x7b' = 1 ∧ Char.utf8Size '\x7d' = 1 := by decide
          simp only [byteLength_cons, byteLength_append, hbraces]
          omega
  | case5 c rest hclose hopen ih =>
      have hlater := ih (before ++ [c])
      rw [byteLength_concat, ← List.append_cons] at hlater
      have hordinary : c ≠ ')' ∧ c ≠ '\x7b' := ⟨hclose, hopen⟩
      rw [closeParenAt_ordinary (lt_byteLength before c rest) (of_sign?_at hordinary),
        closeParenAt_inside before rest c, hlater, cutAt_addFront]

/-! ### Runs of signs -/

/-- A run of signs of a kind is passed over. -/
theorem skip_eq {kind : Char → Bool} (hkind : ∀ c, kind c = true → c.toNat < 128)
    (before rest : List Char) :
    skip kind (before ++ rest) (byteLength before) =
      byteLength before + byteLength (rest.takeWhile kind) := by
  induction rest generalizing before with
  | nil =>
      rw [skip, dif_pos (by rw [List.append_nil])]
      rfl
  | cons c rest ih =>
      have hlt := lt_byteLength before c rest
      rw [skip, dif_neg (Nat.not_le.mpr hlt), sign?_at]
      cases hc : kind c with
      | true =>
          have hlater := ih (before ++ [c])
          rw [byteLength_concat, utf8Size_of_lt (hkind c hc), ← List.append_cons] at hlater
          rw [if_pos (hkind c hc), Option.any_some, if_pos hc, hlater,
            List.takeWhile_cons_of_pos hc, byteLength_cons, utf8Size_of_lt (hkind c hc),
            Nat.add_assoc]
      | false =>
          have hnone : (if c.toNat < 128 then some c else none).any kind = false := by
            split
            · exact hc
            · rfl
          rw [hnone, List.takeWhile_cons_of_neg (by simp [hc])]
          rfl

end Utf8

end PatternMarkup
