import PatternMarkup.Formula.Template
/-!
The pieces of a literal: items between commas and blanks, and the text between parentheses.
Formulas between braces are never cut.
-/

namespace PatternMarkup

/-- The item of characters given from the last to the first; no item for no characters. -/
def pieceOf (start : Nat) (item : List Char) : List Fragment :=
  if item.isEmpty then [] else [⟨start, item.reverse⟩]

/-- Where an item starts to which the character at the byte `offset` belongs. -/
def pieceStart (start : Nat) (item : List Char) (offset : Nat) : Nat :=
  if item.isEmpty then offset else start

/-- The items of a text from the byte `offset` on. `item` holds the characters of the current
item, which began at the byte `start`, the last one first. `comma` tells that a comma came after
the item before; a second one makes an empty item. -/
def piecesFrom (start : Nat) (item : List Char) (comma : Bool) (offset : Nat)
    (text : List Char) : List Fragment :=
  match _h : text with
  | [] => pieceOf start item
  | '\x7b' :: rest =>
      let begin := pieceStart start item offset
      match _hclose : closeBrace 0 none rest with
      | none => pieceOf begin (rest.reverse ++ '\x7b' :: item)
      | some (inner, after) =>
          piecesFrom begin ('\x7d' :: (inner.reverse ++ '\x7b' :: item)) false
            (offset + byteLength inner + 2) after
  | c :: rest =>
      if c = ',' then
        let empty : List Fragment := if item.isEmpty && comma then [⟨offset, []⟩] else []
        empty ++ pieceOf start item ++ piecesFrom start [] true (offset + 1) rest
      else if c = ' ' ∨ c = '\t' ∨ c = '\n' ∨ c = '\r' then
        pieceOf start item ++ piecesFrom start [] comma (offset + 1) rest
      else
        piecesFrom (pieceStart start item offset) (c :: item) false (offset + c.utf8Size) rest
termination_by text.length
decreasing_by
  · have := congrArg List.length (eq_append_of_closeBrace _hclose)
    simp only [List.length_append, List.length_cons] at this ⊢
    omega
  all_goals simp

/-- The items of a piece of text. -/
def Fragment.pieces (text : Fragment) : List Fragment :=
  piecesFrom text.offset [] false text.offset text.chars

/-- The characters before the parenthesis that closes and those after it. -/
def closeParen (text : List Char) : Option (List Char × List Char) :=
  match _h : text with
  | [] => none
  | ')' :: rest => some ([], rest)
  | '\x7b' :: rest =>
      match _hclose : closeBrace 0 none rest with
      | none => none
      | some (inner, after) =>
          (closeParen after).map fun (more, tail) =>
            ('\x7b' :: (inner ++ '\x7d' :: more), tail)
  | c :: rest => addFront c (closeParen rest)
termination_by text.length
decreasing_by
  · have := congrArg List.length (eq_append_of_closeBrace _hclose)
    simp only [List.length_append, List.length_cons] at this ⊢
    omega
  · simp

theorem eq_append_of_closeParen {text inner after : List Char}
    (h : closeParen text = some (inner, after)) : text = inner ++ ')' :: after := by
  fun_induction closeParen text generalizing inner after with
  | case1 => simp at h
  | case2 => simp_all
  | case3 => simp at h
  | case4 _ _ _ hclose ih =>
      have := eq_append_of_closeBrace hclose
      simp only [Option.map_eq_some_iff, Prod.exists] at h
      obtain ⟨more, tail', hmore, heq⟩ := h
      simp only [Prod.mk.injEq] at heq
      obtain ⟨rfl, rfl⟩ := heq
      simp [this, ih hmore]
  | case5 => grind

end PatternMarkup
