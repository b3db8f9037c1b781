import PatternMarkup.Formula.Fold
import PatternMarkup.Text.Blank
/-!
Text with formulas between braces. A doubled brace is a brace of the text; inside a formula,
braces nest, and those in quoted text do not count.
-/

namespace PatternMarkup

/-- A cut of a text with one more character in front. -/
def addFront (c : Char) (cut : Option (List Char × List Char)) : Option (List Char × List Char) :=
  cut.map fun (inner, after) => (c :: inner, after)

@[grind =] theorem addFront_eq_some {c : Char} {cut : Option (List Char × List Char)}
    {inner after : List Char} :
    addFront c cut = some (inner, after) ↔
      ∃ rest, cut = some (rest, after) ∧ inner = c :: rest := by
  cases cut <;> simp [addFront]
  grind

/-- The characters before the brace that closes a formula and those after it. `depth` counts the
braces opened on the way, and `quote` is the quote that is open. -/
def closeBrace (depth : Nat) (quote : Option Char) : List Char → Option (List Char × List Char)
  | [] => none
  | c :: rest =>
      match quote with
      | some q =>
          if c = '\\' then
            match rest with
            | [] => none
            | d :: rest => addFront c (addFront d (closeBrace depth quote rest))
          else if c = q then addFront c (closeBrace depth none rest)
          else addFront c (closeBrace depth quote rest)
      | none =>
          if c = '"' ∨ c = '\'' then addFront c (closeBrace depth (some c) rest)
          else if c = '{' then addFront c (closeBrace (depth + 1) none rest)
          else if c = '}' then
            match depth with
            | 0 => some ([], rest)
            | d + 1 => addFront c (closeBrace d none rest)
          else addFront c (closeBrace depth none rest)

theorem eq_append_of_closeBrace {depth : Nat} {quote : Option Char} {text inner after : List Char}
    (h : closeBrace depth quote text = some (inner, after)) : text = inner ++ '}' :: after := by
  fun_induction closeBrace depth quote text generalizing inner after <;> grind

/-- The formula between the braces that enclose all of a text, blanks aside. -/
def Fragment.braced? (text : Fragment) : Option Fragment :=
  let front := text.chars.takeWhile isBlank
  match trim text.chars with
  | '{' :: rest =>
      match closeBrace 0 none rest with
      | some (inner, []) => some ⟨text.offset + byteLength front + 1, inner⟩
      | _ => none
  | _ => none

variable {α : Type} [Number α]

/-- The literal of characters, given from the last to the first; nothing for no characters. -/
def literalPart (start : Nat) (literal : List Char) (stop : Nat) : List (Ast α) :=
  if literal.isEmpty then []
  else [.literal (.string (String.ofList literal.reverse)) ⟨start, stop⟩]

/-- The parts of a text from the byte `offset` on. `literal` holds the characters read since the
byte `start`, the last one first. -/
def templateParts (start : Nat) (literal : List Char) (offset : Nat) (text : List Char) :
    Except FormatError (List (Ast α)) :=
  match _h : text with
  | [] => .ok (literalPart start literal offset)
  | '{' :: '{' :: rest => templateParts start ('{' :: literal) (offset + 2) rest
  | '}' :: '}' :: rest => templateParts start ('}' :: literal) (offset + 2) rest
  | '}' :: _ => .error ⟨.unmatchedBrace, ⟨offset, offset + 1⟩⟩
  | '{' :: rest =>
      match _hclose : closeBrace 0 none rest with
      | none => .error ⟨.unclosedBrace, ⟨offset, offset + 1⟩⟩
      | some (inner, after) => do
          let ast ← Ast.read ⟨offset + 1, inner⟩
          let next := offset + byteLength inner + 2
          let later ← templateParts next [] next after
          return literalPart start literal offset ++ ast :: later
  | c :: rest => templateParts start (c :: literal) (offset + c.utf8Size) rest
termination_by text.length
decreasing_by
  · simp only [List.length_cons]; omega
  · simp only [List.length_cons]; omega
  · have := congrArg List.length (eq_append_of_closeBrace _hclose)
    simp only [List.length_append, List.length_cons] at this ⊢
    omega
  · simp

/-- The formula of parts: a single literal stands alone. -/
def ofParts (range : ByteRange) (parts : List (Ast α)) : Ast α :=
  match parts with
  | [] => .literal (.string "") range
  | [part] => if part.isLiteral then part else .interpolation [part] range
  | parts => .interpolation parts range

/-- Reads text with formulas in it and folds it. -/
def Fragment.template (s : Scope α) (text : Fragment) : Except FormatError (Ast α) := do
  let parts ← templateParts text.offset [] text.offset text.chars
  return (ofParts text.range parts).fold s

end PatternMarkup
