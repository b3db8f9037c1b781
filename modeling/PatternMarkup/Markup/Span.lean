import PatternMarkup.Text.Bytes
/-!
Places in a source text: positions, which count bytes, lines and columns, and spans, which add
a length in bytes. A span inside the text of another one is found by counting its prefix.
-/

namespace PatternMarkup

/-- A place between two characters: bytes before it, and its line and column from one. -/
structure Position where
  offset : Nat
  line : Nat
  column : Nat
deriving Repr, DecidableEq, Inhabited

/-- A place in the source and a length in bytes from there. -/
structure Span where
  offset : Nat
  line : Nat
  column : Nat
  length : Nat
deriving Repr, DecidableEq, Inhabited

namespace Position

/-- The start of a text. -/
def start : Position := ⟨0, 1, 1⟩

/-- The place after one more character. A line break starts a new line. -/
def next (p : Position) (c : Char) : Position :=
  if c = '\n' then ⟨p.offset + c.utf8Size, p.line + 1, 1⟩
  else ⟨p.offset + c.utf8Size, p.line, p.column + 1⟩

/-- The place after the given characters. -/
def after (p : Position) (text : List Char) : Position := text.foldl next p

@[simp] theorem after_nil (p : Position) : p.after [] = p := rfl

@[simp] theorem after_cons (p : Position) (c : Char) (rest : List Char) :
    p.after (c :: rest) = (p.next c).after rest := rfl

theorem after_append (p : Position) (left right : List Char) :
    p.after (left ++ right) = (p.after left).after right := by
  simp [after, List.foldl_append]

theorem offset_after (p : Position) (text : List Char) :
    (p.after text).offset = p.offset + byteLength text := by
  induction text generalizing p with
  | nil => simp
  | cons c rest ih =>
      rw [after_cons, ih, byteLength_cons]
      unfold next
      split <;> simp [Nat.add_assoc]

/-- The span from here to a later place. -/
def spanTo (p q : Position) : Span := ⟨p.offset, p.line, p.column, q.offset - p.offset⟩

/-- The span of the characters that start here. -/
def spanOf (p : Position) (text : List Char) : Span :=
  ⟨p.offset, p.line, p.column, byteLength text⟩

/-- The empty span here. -/
def here (p : Position) : Span := ⟨p.offset, p.line, p.column, 0⟩

end Position

namespace Span

/-- The empty span at the start of a text. -/
def origin : Span := ⟨0, 1, 1, 0⟩

/-- The byte offset where the span ends. -/
def stop (s : Span) : Nat := s.offset + s.length

/-- The bytes the span covers. -/
def range (s : Span) : ByteRange := ⟨s.offset, s.stop⟩

/-- Whether the span covers nothing. -/
def isEmpty (s : Span) : Bool := s.length == 0

/-- Where the span starts. -/
def position (s : Span) : Position := ⟨s.offset, s.line, s.column⟩

/-- The empty span at the end of one that lies on a single line of ASCII text. -/
def atEnd (s : Span) : Span := ⟨s.stop, s.line, s.column + s.length, 0⟩

/-- The span of a byte range of `text`, where `text` is what this span covers. A range that
starts inside a character keeps the whole span. -/
def narrow (s : Span) (text : String) (range : ByteRange) : Span :=
  let size := text.utf8ByteSize
  let start := min range.start size
  let stop := max start (min range.stop size)
  match splitBytes? start text.toList with
  | none => s
  | some (before, _) =>
      let p := s.position.after before
      ⟨s.offset + start, p.line, p.column, stop - start⟩

/-- The smallest span that holds both; its line and column are those of the earlier one. -/
def join (s t : Span) : Span :=
  let first := if s.offset ≤ t.offset then s else t
  ⟨first.offset, first.line, first.column, max s.stop t.stop - first.offset⟩

end Span

end PatternMarkup
