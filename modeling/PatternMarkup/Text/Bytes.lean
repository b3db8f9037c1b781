/-!
Positions in text are counted in bytes of its UTF-8 form. This module holds byte ranges, the
byte length of a list of characters and the cut of a text at a byte offset, which exists
exactly where a character ends.
-/

namespace PatternMarkup

/-- The bytes from `start` up to, not including, `stop`. -/
structure ByteRange where
  start : Nat
  stop : Nat
deriving Repr, DecidableEq, Inhabited

namespace ByteRange

/-- The same range, `base` bytes further on. -/
def shift (range : ByteRange) (base : Nat) : ByteRange :=
  ⟨range.start + base, range.stop + base⟩

/-- From the start of one range to the end of another. -/
def through (first last : ByteRange) : ByteRange := ⟨first.start, last.stop⟩

/-- The smallest range that holds both. -/
def union (left right : ByteRange) : ByteRange :=
  ⟨min left.start right.start, max left.stop right.stop⟩

end ByteRange

/-- The number of bytes the characters take in UTF-8. -/
def byteLength : List Char → Nat
  | [] => 0
  | c :: rest => c.utf8Size + byteLength rest

@[simp] theorem byteLength_nil : byteLength [] = 0 := rfl

@[simp] theorem byteLength_cons (c : Char) (rest : List Char) :
    byteLength (c :: rest) = c.utf8Size + byteLength rest := rfl

@[simp] theorem byteLength_append (left right : List Char) :
    byteLength (left ++ right) = byteLength left + byteLength right := by
  induction left with
  | nil => simp
  | cons c rest ih => simp [ih, Nat.add_assoc]

/-- A string takes as many bytes as its characters. -/
theorem byteLength_toList (s : String) : byteLength s.toList = s.utf8ByteSize := by
  have h : ∀ l : List Char, byteLength l = (String.ofList l).utf8ByteSize := by
    intro l
    induction l with
    | nil => simp
    | cons c rest ih =>
        rw [byteLength_cons, ih, String.ofList_cons, String.utf8ByteSize_append,
          String.utf8ByteSize_singleton]
  rw [h, String.ofList_toList]

/-- The first `n` bytes of the text and what follows them, if a character ends there. -/
def splitBytes? (n : Nat) : List Char → Option (List Char × List Char)
  | [] => if n = 0 then some ([], []) else none
  | c :: rest =>
      if n = 0 then some ([], c :: rest)
      else if n < c.utf8Size then none
      else (splitBytes? (n - c.utf8Size) rest).map fun (front, back) => (c :: front, back)

/-- A cut loses nothing, and its first part has the length asked for. -/
theorem eq_append_of_splitBytes? {n : Nat} {text front back : List Char}
    (h : splitBytes? n text = some (front, back)) :
    text = front ++ back ∧ byteLength front = n := by
  induction text generalizing n front back with
  | nil =>
      by_cases hn : n = 0 <;> simp_all [splitBytes?]
  | cons c rest ih =>
      unfold splitBytes? at h
      split at h
      · simp_all
      · split at h
        · simp at h
        · obtain ⟨⟨front', back'⟩, hcut, heq⟩ := Option.map_eq_some_iff.1 h
          simp only [Prod.mk.injEq] at heq
          obtain ⟨rfl, rfl⟩ := heq
          obtain ⟨rfl, hlen⟩ := ih hcut
          refine ⟨rfl, ?_⟩
          simp only [byteLength_cons, hlen]
          omega

/-- The bytes of `text` that `range` denotes, if it lies between character ends. -/
def sliceBytes? (text : List Char) (range : ByteRange) : Option (List Char) := do
  let (_, rest) ← splitBytes? range.start text
  let (slice, _) ← splitBytes? (range.stop - range.start) rest
  return slice

/-- A piece of a larger text together with the byte offset where it starts. -/
structure Fragment where
  offset : Nat
  chars : List Char
deriving Repr, DecidableEq, Inhabited

namespace Fragment

/-- A whole text, as a fragment that starts at `base`. -/
def ofString (text : String) (base : Nat) : Fragment := ⟨base, text.toList⟩

/-- The fragment's text. -/
def text (fragment : Fragment) : String := String.ofList fragment.chars

/-- Where the fragment ends. -/
def stop (fragment : Fragment) : Nat := fragment.offset + byteLength fragment.chars

/-- The bytes the fragment covers. -/
def range (fragment : Fragment) : ByteRange := ⟨fragment.offset, fragment.stop⟩

/-- The fragment without its first `count` characters. -/
def drop (fragment : Fragment) (count : Nat) : Fragment :=
  ⟨fragment.offset + byteLength (fragment.chars.take count), fragment.chars.drop count⟩

end Fragment

end PatternMarkup
