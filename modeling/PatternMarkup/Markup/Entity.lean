import PatternMarkup.Text.Bytes
import PatternMarkup.Text.Hexadecimal
/-!
Character references in markup: `&`, a short name or number, `;`. Decoding replaces the known
ones and keeps every other `&` as it stands.
-/

namespace PatternMarkup.Entity

/-- The characters between `&` and `;`. -/
def isBodyChar (c : Char) : Bool := c.isAlphanum || c == '#'

/-- The body of a reference and the text after its `;`, given the text after its `&`. A body
has one to ten characters. -/
def split? (after : List Char) : Option (List Char × List Char) :=
  let body := after.takeWhile isBodyChar
  if body.isEmpty || decide (10 < body.length) then none
  else
    match after.dropWhile isBodyChar with
    | ';' :: rest => some (body, rest)
    | _ => none

theorem length_lt_of_split? {after body rest : List Char} (h : split? after = some (body, rest)) :
    rest.length < after.length := by
  unfold split? at h
  simp only at h
  split at h
  · simp at h
  · split at h
    · rename_i rest' hdrop
      simp only [Option.some.injEq, Prod.mk.injEq] at h
      obtain ⟨_, rfl⟩ := h
      have hle := (List.dropWhile_sublist isBodyChar (l := after)).length_le
      rw [hdrop, List.length_cons] at hle
      exact hle
    · simp at h

/-- The value of a digit in a base up to 16. -/
def digitValue (base : Nat) (c : Char) : Option Nat := (hexDigit? c).filter (· < base)

/-- The number written by the digits; there is at least one. -/
def number? (base : Nat) (digits : List Char) : Option Nat :=
  if digits.isEmpty then none
  else digits.foldlM (fun n c => (digitValue base c).map (base * n + ·)) 0

/-- The character with the code point, if it is one. -/
def charOf? (code : Nat) : Option Char :=
  if code.isValidChar then some (Char.ofNat code) else none

/-- The character a body stands for. -/
def decode? (body : List Char) : Option Char :=
  match body with
  | ['l', 't'] => some '<'
  | ['g', 't'] => some '>'
  | ['a', 'm', 'p'] => some '&'
  | ['q', 'u', 'o', 't'] => some '"'
  | ['a', 'p', 'o', 's'] => some '\''
  | '#' :: 'x' :: digits => (number? 16 digits).bind charOf?
  | '#' :: 'X' :: digits => (number? 16 digits).bind charOf?
  | '#' :: digits => (number? 10 digits).bind charOf?
  | _ => none

/-- A reference as it is written. -/
def written (body : List Char) : List Char := '&' :: body ++ [';']

/-- The text with every known reference replaced by its character. -/
def decode (text : List Char) : List Char :=
  match text with
  | [] => []
  | c :: rest =>
      if c = '&' then
        match _h : split? rest with
        | some (body, after) =>
            (match decode? body with
              | some d => [d]
              | none => written body) ++ decode after
        | none => '&' :: decode rest
      else c :: decode rest
termination_by text.length
decreasing_by
  · have := length_lt_of_split? _h; simp only [List.length_cons]; omega
  · simp
  · simp

/-- Whether the text holds a known reference, so that decoding replaces something. -/
def hasKnown (text : List Char) : Bool :=
  match text with
  | [] => false
  | c :: rest =>
      if c = '&' then
        match _h : split? rest with
        | some (body, after) => (decode? body).isSome || hasKnown after
        | none => hasKnown rest
      else hasKnown rest
termination_by text.length
decreasing_by
  · have := length_lt_of_split? _h; simp only [List.length_cons]; omega
  · simp
  · simp

end PatternMarkup.Entity
