import PatternMarkup.Formula.Literal
import PatternMarkup.Proofs.Formula.ByteScanning
/-!
Places, ranges and parts of a text. A place is an offset between two characters; a range lies
between two places; and a part is what stands in a range. Main statements: what is sliced out of a
text is a part of it, and so are the items of a list and the formula between braces.
-/

namespace PatternMarkup

namespace Fragment

/-- The offset is one between two characters of the text, or at one of its ends. -/
def HasPlace (text : Fragment) (offset : Nat) : Prop :=
  ∃ front back, text.chars = front ++ back ∧ offset = text.offset + byteLength front

/-- The range starts and ends between characters of the text, and does not end before it starts. -/
structure Holds (text : Fragment) (range : ByteRange) : Prop where
  start_le_stop : range.start ≤ range.stop
  start : text.HasPlace range.start
  stop : text.HasPlace range.stop

/-- The part stands in the text, at its own offset. -/
def Contains (text part : Fragment) : Prop :=
  ∃ front back, text.chars = front ++ (part.chars ++ back) ∧
    part.offset = text.offset + byteLength front

section Places

variable {text part : Fragment}

theorem hasPlace_offset (text : Fragment) : text.HasPlace text.offset :=
  ⟨[], text.chars, rfl, rfl⟩

theorem hasPlace_stop (text : Fragment) : text.HasPlace text.stop :=
  ⟨text.chars, [], (List.append_nil _).symm, rfl⟩

theorem holds_range (text : Fragment) : text.Holds text.range :=
  ⟨Nat.le_add_right _ _, text.hasPlace_offset, text.hasPlace_stop⟩

theorem HasPlace.offset_le {offset : Nat} (h : text.HasPlace offset) : text.offset ≤ offset := by
  obtain ⟨front, back, -, rfl⟩ := h
  exact Nat.le_add_right _ _

theorem HasPlace.contains {offset : Nat} (h : text.HasPlace offset) :
    text.Contains ⟨offset, []⟩ := h

theorem HasPlace.holds {offset : Nat} (h : text.HasPlace offset) : text.Holds ⟨offset, offset⟩ :=
  ⟨Nat.le_refl _, h, h⟩

/-- From the start of the text to any place in it. -/
theorem HasPlace.holds_from {offset : Nat} (h : text.HasPlace offset) :
    text.Holds ⟨text.offset, offset⟩ :=
  ⟨h.offset_le, text.hasPlace_offset, h⟩

/-- The smallest range that holds two ranges of the text is one of the text. -/
theorem Holds.union {first last : ByteRange} (hfirst : text.Holds first) (hlast : text.Holds last) :
    text.Holds (first.union last) := by
  refine ⟨?_, ?_, ?_⟩
  · exact Nat.le_trans (Nat.min_le_left _ _)
      (Nat.le_trans hfirst.start_le_stop (Nat.le_max_left _ _))
  · rcases Nat.le_total first.start last.start with h | h
    · rw [ByteRange.union, Nat.min_eq_left h]
      exact hfirst.start
    · rw [ByteRange.union, Nat.min_eq_right h]
      exact hlast.start
  · rcases Nat.le_total first.stop last.stop with h | h
    · rw [ByteRange.union, Nat.max_eq_right h]
      exact hlast.stop
    · rw [ByteRange.union, Nat.max_eq_left h]
      exact hfirst.stop

end Places

/-! ### Parts -/

section Parts

variable {text part inner : Fragment}

theorem Contains.refl (text : Fragment) : text.Contains text :=
  ⟨[], [], (List.append_nil _).symm, rfl⟩

theorem Contains.trans (h : text.Contains part) (hinner : part.Contains inner) :
    text.Contains inner := by
  obtain ⟨front, back, hchars, hoffset⟩ := h
  obtain ⟨before, after, hpart, hinner⟩ := hinner
  refine ⟨front ++ before, after ++ back, ?_, ?_⟩
  · rw [hchars, hpart]
    simp only [List.append_assoc]
  · rw [hinner, hoffset, byteLength_append, Nat.add_assoc]

/-- What is left of a text behind its front. -/
theorem contains_after (offset : Nat) (front back : List Char) :
    Contains ⟨offset, front ++ back⟩ ⟨offset + byteLength front, back⟩ :=
  ⟨front, [], by rw [List.append_nil], rfl⟩

theorem Contains.hasPlace (h : text.Contains part) {offset : Nat} (hplace : part.HasPlace offset) :
    text.HasPlace offset := by
  obtain ⟨front, back, hchars, hoffset⟩ := h
  obtain ⟨before, after, hpart, rfl⟩ := hplace
  refine ⟨front ++ before, after ++ back, ?_, ?_⟩
  · rw [hchars, hpart]
    simp only [List.append_assoc]
  · rw [hoffset, byteLength_append, Nat.add_assoc]

theorem Contains.holds (h : text.Contains part) {range : ByteRange} (hrange : part.Holds range) :
    text.Holds range :=
  ⟨hrange.start_le_stop, h.hasPlace hrange.start, h.hasPlace hrange.stop⟩

theorem Contains.holds_range (h : text.Contains part) : text.Holds part.range :=
  h.holds part.holds_range

theorem contains_trimmed (text : Fragment) : text.Contains text.trimmed := by
  refine ⟨text.chars.takeWhile isBlank, blanksAfter (trimStart text.chars), ?_, rfl⟩
  change _ = _ ++ (trimEnd (trimStart text.chars) ++ _)
  rw [trimEnd_append_blanksAfter]
  exact (trimStart_eq text.chars).symm

end Parts

end Fragment

open Fragment

namespace Utf8

/-! ### Slices -/

variable {text part : Fragment} {start stop : Nat}

theorem exists_of_slice? {text piece : List Char} (h : slice? text start stop = some piece) :
    ∃ front back, text = front ++ (piece ++ back) ∧ byteLength front = start ∧
      start + byteLength piece = stop := by
  unfold slice? at h
  split at h
  · obtain ⟨⟨front, rest⟩, hfront, h⟩ := Option.bind_eq_some_iff.mp h
    obtain ⟨⟨found, back⟩, hback, hpiece⟩ := Option.bind_eq_some_iff.mp h
    obtain ⟨hchars, hstart⟩ := eq_append_of_splitBytes? hfront
    obtain ⟨rfl, hstop⟩ := eq_append_of_splitBytes? hback
    obtain rfl : found = piece := Option.some.inj hpiece
    exact ⟨front, back, hchars, hstart, by simp only at hstop; omega⟩
  · cases h

theorem contains_of_slice? {piece : List Char} (h : slice? text.chars start stop = some piece) :
    text.Contains ⟨text.offset + start, piece⟩ := by
  obtain ⟨front, back, hchars, rfl, -⟩ := exists_of_slice? h
  exact ⟨front, back, hchars, rfl⟩

theorem holds_of_slice? {piece : List Char} (h : slice? text.chars start stop = some piece) :
    text.Holds ⟨text.offset + start, text.offset + stop⟩ := by
  have hrange := (contains_of_slice? h).holds_range
  obtain ⟨front, back, -, -, rfl⟩ := exists_of_slice? h
  rw [← Nat.add_assoc]
  exact hrange

/-- A sign stands between two places. -/
theorem exists_of_sign? {text : List Char} {i : Nat} {c : Char} (h : sign? text i = some c) :
    ∃ front back, text = front ++ c :: back ∧ byteLength front = i := by
  induction text generalizing i with
  | nil => cases h
  | cons d rest ih =>
      rcases Nat.lt_or_ge i d.utf8Size with hi | hi
      · rcases Nat.eq_zero_or_pos i with rfl | hpos
        · rw [sign?_cons_zero] at h
          split at h
          · obtain rfl := Option.some.inj h
            exact ⟨[], rest, rfl, rfl⟩
          · cases h
        · rw [sign?_inside d rest hpos hi] at h
          cases h
      · obtain ⟨more, rfl⟩ := Nat.exists_eq_add_of_le hi
        obtain ⟨front, back, rfl, rfl⟩ := ih ((sign?_append [d] rest more).symm.trans h)
        exact ⟨d :: front, back, rfl, rfl⟩

theorem hasPlace_of_sign? {i : Nat} {c : Char} (h : sign? text.chars i = some c) :
    text.HasPlace (text.offset + i) := by
  obtain ⟨front, back, hchars, rfl⟩ := exists_of_sign? h
  exact ⟨front, c :: back, hchars, rfl⟩

/-! ### Items -/

/-- All of several texts are parts of one. -/
def AreParts (text : Fragment) (items : List Fragment) : Prop := ∀ item ∈ items, text.Contains item

theorem AreParts.append {items more : List Fragment} (h : AreParts text items)
    (hmore : AreParts text more) : AreParts text (items ++ more) :=
  List.forall_mem_append.mpr ⟨h, hmore⟩

theorem areParts_flush {s : Option Nat} {items : List Fragment}
    (h : flush text s stop = some items) : AreParts text items := by
  unfold flush at h
  split at h
  · cases h
    exact List.forall_mem_nil _
  · obtain ⟨piece, hpiece, rfl⟩ := Option.map_eq_some_iff.mp h
    exact List.forall_mem_singleton.mpr (contains_of_slice? hpiece)

/-- The item that ends at a sign, and those behind it. -/
theorem areParts_of_flush {s : Option Nat} {i : Nat} (empty : List Fragment)
    {items : List Fragment} {later : Option (List Fragment)} (hempty : AreParts text empty)
    (hlater : ∀ more, later = some more → AreParts text more)
    (h : (do let item ← flush text s i; return empty ++ item ++ (← later)) = some items) :
    AreParts text items := by
  obtain ⟨item, hitem, h⟩ := Option.bind_eq_some_iff.mp h
  obtain ⟨more, hmore, h⟩ := Option.bind_eq_some_iff.mp h
  obtain rfl := Option.some.inj h
  exact (hempty.append (areParts_flush hitem)).append (hlater more hmore)

theorem areParts_splitItems {s : Option Nat} {comma : Bool} {i : Nat} {items : List Fragment}
    (h : splitItems text s comma i = some items) : AreParts text items := by
  fun_induction splitItems text s comma i generalizing items with
  | case1 => exact areParts_flush h
  | case2 s comma i hend hsign empty =>
      rename_i ih
      have hempty : AreParts text empty := by
        simp only [empty]
        split
        · exact List.forall_mem_singleton.mpr (hasPlace_of_sign? hsign).contains
        · exact List.forall_mem_nil _
      exact areParts_of_flush empty hempty (fun _ => ih) h
  | case3 s comma i hend hsign ih | case4 s comma i hend hsign ih | case5 s comma i hend hsign ih
  | case6 s comma i hend hsign ih =>
      exact areParts_of_flush [] (List.forall_mem_nil _) (fun _ => ih) h
  | case7 s comma i hend hsign ih =>
      obtain ⟨close, -, h⟩ := Option.bind_eq_some_iff.mp h
      obtain ⟨hnext, h⟩ := Option.dite_none_right_eq_some.mp h
      exact ih close hnext h
  | case8 s comma i hend hcomma hspace htab hbreak hreturn hopen ih => exact ih h

/-- The items of a text are parts of it. -/
theorem areParts_pieces (text : Fragment) : AreParts text text.pieces :=
  areParts_splitItems (splitItems_pieces text)

/-- The formula between the braces around a text is a part of it. -/
theorem contains_braced? {inner : Fragment} (h : text.braced? = some inner) :
    text.Contains inner := by
  have htrimmed := contains_trimmed text
  unfold Fragment.braced? at h
  split at h
  case h_1 rest htrim =>
    split at h
    case h_1 piece hclose =>
      obtain rfl := Option.some.inj h
      refine htrimmed.trans ⟨['\x7b'], ['\x7d'], ?_, rfl⟩
      exact htrim.trans (congrArg _ (eq_append_of_closeBrace hclose))
    case h_2 => cases h
  case h_2 => cases h

end Utf8

end PatternMarkup
