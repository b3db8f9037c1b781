import PatternMarkup.Formula.Literal
import PatternMarkup.Proofs.Formula.Bracing
import PatternMarkup.Proofs.Formula.SlicedReading
/-!
Reading a text in another place. Where a text stands makes no difference to what it is read as, its
ranges aside: a constant is the same constant, and a formula has the same form.
-/

namespace PatternMarkup

variable {α : Type} [Number α]

/-! ### Folding and ranges -/

namespace Ast

omit [Number α] in
theorem range_withoutRanges (ast : Ast α) : ast.withoutRanges.range = ⟨0, 0⟩ := by
  cases ast <;> rw [withoutRanges] <;> rfl

omit [Number α] in
theorem isLiteral_withoutRanges (ast : Ast α) : ast.withoutRanges.isLiteral = ast.isLiteral := by
  rw [isLiteral, literal?_withoutRanges, isLiteral]

omit [Number α] in
theorem literals?_allWithoutRanges (asts : List (Ast α)) :
    literals? (allWithoutRanges asts) = literals? asts := by
  induction asts with
  | nil => rw [allWithoutRanges]
  | cons ast rest ih =>
      rw [allWithoutRanges, literals?, literals?, literal?_withoutRanges, ih]

omit [Number α] in
theorem withoutRanges_literalOr (result : Except EvalError (Value α)) (otherwise : Ast α) :
    (literalOr result otherwise).withoutRanges = literalOr result otherwise.withoutRanges := by
  cases result with
  | ok v => rw [literalOr, literalOr, withoutRanges, range_withoutRanges]
  | error e => rfl

omit [Number α] in
theorem withoutRanges_foldOnLiterals (operands : List (Ast α))
    (operation : List (Value α) → Except EvalError (Value α)) (otherwise : Ast α) :
    (foldOnLiterals operands operation otherwise).withoutRanges =
      foldOnLiterals (allWithoutRanges operands) operation otherwise.withoutRanges := by
  unfold foldOnLiterals
  rw [literals?_allWithoutRanges]
  split
  · exact withoutRanges_literalOr _ _
  · rfl

omit [Number α] in
theorem withoutRanges_foldConditional (condition then_ else_ : Ast α) (range : ByteRange) :
    (foldConditional condition then_ else_ range).withoutRanges =
      foldConditional condition.withoutRanges then_.withoutRanges else_.withoutRanges ⟨0, 0⟩ := by
  unfold foldConditional
  rw [literal?_withoutRanges, isLiteral_withoutRanges, isLiteral_withoutRanges]
  split
  · next c _ _ _ => cases c <;> rfl
  · rw [withoutRanges]

mutual

/-- Folding looks at no range. -/
theorem foldWith_withoutRanges (hidden : String → Bool) : (ast : Ast α) →
    ast.withoutRanges.foldWith hidden = (ast.foldWith hidden).withoutRanges
  | literal value range => by rw [withoutRanges, foldWith, foldWith, withoutRanges]
  | name n range => by
      rw [withoutRanges, foldWith, foldWith]
      cases (if hidden n then none else Builtin.constant? n : Option (Value α)) with
      | none => exact (withoutRanges.eq_2 n range).symm
      | some v => exact (withoutRanges.eq_1 v range).symm
  | list items range => by
      rw [withoutRanges, foldWith, foldWith, withoutRanges_foldOnLiterals,
        foldAll_withoutRanges hidden items, withoutRanges]
  | unary op operand range => by
      rw [withoutRanges, foldWith, foldWith, foldWith_withoutRanges hidden operand]
      simp only [literal?_withoutRanges]
      split
      · rw [withoutRanges_literalOr, withoutRanges]
      · rw [withoutRanges]
  | binary op left right range => by
      rw [withoutRanges, foldWith, foldWith, foldWith_withoutRanges hidden left,
        foldWith_withoutRanges hidden right]
      simp only [literal?_withoutRanges]
      split
      · rw [withoutRanges_literalOr, withoutRanges]
      · rw [withoutRanges]
  | conditional condition then_ else_ range => by
      rw [withoutRanges, foldWith, foldWith, foldWith_withoutRanges hidden condition,
        foldWith_withoutRanges hidden then_, foldWith_withoutRanges hidden else_,
        withoutRanges_foldConditional]
  | call function arguments range => by
      rw [withoutRanges, foldWith, foldWith, foldAll_withoutRanges hidden arguments]
      split
      · rw [withoutRanges]
      · rw [withoutRanges_foldOnLiterals, withoutRanges]
  | member object m range => by
      rw [withoutRanges, foldWith, foldWith, foldWith_withoutRanges hidden object]
      simp only [literal?_withoutRanges]
      split
      · rw [withoutRanges_literalOr, withoutRanges]
      · rw [withoutRanges]
  | index object i range => by
      rw [withoutRanges, foldWith, foldWith, foldWith_withoutRanges hidden object,
        foldWith_withoutRanges hidden i]
      simp only [literal?_withoutRanges]
      split
      · rw [withoutRanges_literalOr, withoutRanges]
      · rw [withoutRanges]
  | interpolation parts range => by
      rw [withoutRanges, foldWith, foldWith, withoutRanges_foldOnLiterals,
        foldAll_withoutRanges hidden parts, withoutRanges]

theorem foldAll_withoutRanges (hidden : String → Bool) : (asts : List (Ast α)) →
    foldAll hidden (allWithoutRanges asts) = allWithoutRanges (foldAll hidden asts)
  | [] => by rw [allWithoutRanges, foldAll, allWithoutRanges]
  | ast :: rest => by
      rw [allWithoutRanges, foldAll, foldAll, allWithoutRanges,
        foldWith_withoutRanges hidden ast, foldAll_withoutRanges hidden rest]

end

/-- Two formulas are the same, their ranges aside. -/
def SameForm (first second : Ast α) : Prop := first.withoutRanges = second.withoutRanges

theorem SameForm.fold {first second : Ast α} (h : first.SameForm second) (s : Scope α) :
    (first.fold s).SameForm (second.fold s) := by
  unfold SameForm Ast.fold
  rw [← foldWith_withoutRanges, ← foldWith_withoutRanges, h]

omit [Number α] in
theorem SameForm.literal?_eq {first second : Ast α} (h : first.SameForm second) :
    first.literal? = second.literal? := by
  rw [← literal?_withoutRanges, h, literal?_withoutRanges]

omit [Number α] in
theorem sameForm_literal (v : Value α) (range range' : ByteRange) :
    (literal v range).SameForm (.literal v range') := by
  rw [SameForm, withoutRanges, withoutRanges]

omit [Number α] in
theorem SameForm.ofBinary {left right left' right' : Ast α} (op : BinaryOp)
    (hleft : left.SameForm left') (hright : right.SameForm right') :
    (Ast.ofBinary op left right).SameForm (.ofBinary op left' right') := by
  unfold SameForm
  rw [FormulaParser.withoutRanges_ofBinary, FormulaParser.withoutRanges_ofBinary, hleft, hright]

omit [Number α] in
theorem allWithoutRanges_eq_of_forall₂ {asts asts' : List (Ast α)}
    (h : List.Forall₂ SameForm asts asts') : allWithoutRanges asts = allWithoutRanges asts' := by
  induction h with
  | nil => rfl
  | cons hfirst _ ih => rw [allWithoutRanges, allWithoutRanges, hfirst, ih]

end Ast

open Ast (SameForm)

/-! ### Two readings of one text -/

section

variable {β γ δ ε : Type} {related : β → γ → Prop} {result : δ → ε → Prop}

/-- Two readings give results that are related, or neither gives one. -/
def Alike (related : β → γ → Prop) : Except FormatError β → Except FormatError γ → Prop
  | .ok x, .ok y => related x y
  | .error _, .error _ => True
  | _, _ => False

namespace Alike

variable {read : Except FormatError β} {read' : Except FormatError γ}

theorem bind {next : β → Except FormatError δ} {next' : γ → Except FormatError ε}
    (h : Alike related read read') (hnext : ∀ x y, related x y → Alike result (next x) (next' y)) :
    Alike result (read >>= next) (read' >>= next') := by
  cases read <;> cases read'
  · exact h
  · exact h.elim
  · exact h.elim
  · exact hnext _ _ h

theorem map {f : β → δ} {f' : γ → ε} (h : Alike related read read')
    (hf : ∀ x y, related x y → result (f x) (f' y)) : Alike result (read.map f) (read'.map f') := by
  cases read <;> cases read'
  · exact h
  · exact h.elim
  · exact h.elim
  · exact hf _ _ h

theorem exists_of_ok (h : Alike related read read') {x : β} (hx : read = .ok x) :
    ∃ y, read' = .ok y ∧ related x y := by
  subst hx
  cases read' with
  | ok y => exact ⟨y, rfl, h⟩
  | error e => exact h.elim

theorem mapM {p : β → γ → Prop} {xs : List β} {ys : List γ} {read : β → Except FormatError δ}
    {read' : γ → Except FormatError ε} (h : List.Forall₂ p xs ys)
    (hread : ∀ x y, p x y → Alike result (read x) (read' y)) :
    Alike (List.Forall₂ result) (xs.mapM read) (ys.mapM read') := by
  induction h with
  | nil => exact .nil
  | cons hfirst _ ih =>
      rw [List.mapM_cons, List.mapM_cons]
      exact (hread _ _ hfirst).bind fun _ _ hx => ih.bind fun _ _ hxs => .cons hx hxs

end Alike

end

/-- Two fragments have the same characters. -/
def SameChars (text text' : Fragment) : Prop := text.chars = text'.chars

section

variable {text text' : Fragment}

theorem SameChars.text_eq (h : SameChars text text') : text.text = text'.text :=
  congrArg String.ofList h

theorem SameChars.trimmed (h : SameChars text text') : SameChars text.trimmed text'.trimmed :=
  congrArg trim h

theorem alike_read (h : SameChars text text') :
    Alike SameForm (Ast.read (α := α) text) (Ast.read text') := by
  obtain ⟨offset, chars⟩ := text
  obtain ⟨offset', chars'⟩ := text'
  obtain rfl : chars = chars' := h
  cases hread : Ast.read (α := α) ⟨offset, chars⟩ with
  | ok ast =>
      obtain ⟨ast', hread', hsame⟩ := Ast.read_elsewhere hread offset'
      rw [hread']
      exact hsame.symm
  | error e =>
      cases hread' : Ast.read (α := α) ⟨offset', chars⟩ with
      | ok ast' =>
          obtain ⟨ast, hok, -⟩ := Ast.read_elsewhere hread' offset
          exact nomatch hread.symm.trans hok
      | error e' => trivial

theorem alike_readFolded (s : Scope α) (h : SameChars text text') :
    Alike SameForm (Ast.readFolded s text) (Ast.readFolded s text') := by
  unfold Ast.readFolded
  exact (alike_read h).map fun _ _ hsame => hsame.fold s

/-! ### Pieces -/

omit [Number α] in
theorem sameChars_pieceOf (start start' : Nat) (item : List Char) :
    List.Forall₂ SameChars (pieceOf start item) (pieceOf start' item) := by
  unfold pieceOf
  split
  · exact .nil
  · exact .cons rfl .nil

theorem sameChars_piecesFrom {start start' offset offset' : Nat} {item : List Char} {comma : Bool}
    {text : List Char} : List.Forall₂ SameChars (piecesFrom start item comma offset text)
      (piecesFrom start' item comma offset' text) := by
  fun_induction piecesFrom start item comma offset text generalizing start' offset' with
  | case1 start item comma offset =>
      rw [piecesFrom]
      exact sameChars_pieceOf ..
  | case2 start item comma offset rest begin =>
      rename_i hclose
      rw [piecesFrom]
      split
      · exact sameChars_pieceOf ..
      · next h => cases hclose.symm.trans h
  | case3 start item comma offset rest begin inner after =>
      rename_i hclose ih
      rw [piecesFrom]
      split
      · next h => cases hclose.symm.trans h
      · next h =>
          obtain ⟨rfl, rfl⟩ := Prod.mk.inj (Option.some.inj (hclose.symm.trans h))
          exact ih
  | case4 start item comma offset rest empty hopen =>
      rename_i ih
      rw [piecesFrom.eq_3 _ _ _ _ _ _ hopen, if_pos rfl]
      refine List.rel_append (List.rel_append ?_ (sameChars_pieceOf ..)) ih
      simp only [empty]
      split
      · exact .cons rfl .nil
      · exact .nil
  | case5 start item comma offset c rest hopen hcomma hgap ih =>
      rw [piecesFrom.eq_3 _ _ _ _ _ _ hopen, if_neg hcomma, if_pos hgap]
      exact List.rel_append (sameChars_pieceOf ..) ih
  | case6 start item comma offset c rest hopen hcomma hgap ih =>
      rw [piecesFrom.eq_3 _ _ _ _ _ _ hopen, if_neg hcomma, if_neg hgap]
      exact ih

theorem SameChars.pieces (h : SameChars text text') :
    List.Forall₂ SameChars text.pieces text'.pieces := by
  unfold Fragment.pieces
  rw [show text.chars = text'.chars from h]
  exact sameChars_piecesFrom

theorem SameChars.braced?_cases (h : SameChars text text') :
    text.braced? = none ∧ text'.braced? = none ∨
      ∃ inner inner', text.braced? = some inner ∧ text'.braced? = some inner' ∧
        SameChars inner inner' := by
  unfold Fragment.braced?
  rw [show text.chars = text'.chars from h]
  cases htrim : trim text'.chars with
  | nil => exact .inl ⟨rfl, rfl⟩
  | cons c rest =>
      by_cases hopen : c = '\x7b'
      · subst hopen
        cases hclose : closeBrace 0 none rest with
        | none => exact .inl ⟨by simp only [hclose], by simp only [hclose]⟩
        | some cut =>
            obtain ⟨inner, after⟩ := cut
            cases after with
            | nil =>
                simp only [hclose]
                exact .inr ⟨_, _, rfl, rfl, rfl⟩
            | cons d after => exact .inl ⟨by simp only [hclose], by simp only [hclose]⟩
      · refine .inl ⟨?_, ?_⟩ <;> simp [hopen]

/-! ### Numbers and lists of them -/

omit [Number α] in
theorem alike_fractionOf (s : Scope α) (axis : Axis) (fraction : α) (range range' : ByteRange) :
    Alike SameForm (fractionOf s axis fraction range) (fractionOf s axis fraction range') := by
  unfold fractionOf
  split
  · refine SameForm.ofBinary _ ?_ (Ast.sameForm_literal _ _ _)
    rw [SameForm, Ast.withoutRanges, Ast.withoutRanges]
  · trivial

theorem alike_numberItem (s : Scope α) (axis : Option Axis) (h : SameChars text text') :
    Alike SameForm (text.numberItem s axis) (text'.numberItem s axis) := by
  unfold Fragment.numberItem
  rcases h.braced?_cases with ⟨hnone, hnone'⟩ | ⟨inner, inner', hsome, hsome', hinner⟩
  · simp only [hnone, hnone', show text.chars = text'.chars from h]
    split
    · trivial
    · exact Ast.sameForm_literal _ _ _
    · exact alike_fractionOf ..
    · split
      · exact Ast.sameForm_literal _ _ _
      · trivial
  · simp only [hsome, hsome']
    exact alike_readFolded s hinner

theorem alike_numberItems (s : Scope α) (axes : List (Option Axis)) {items items' : List Fragment}
    (h : List.Forall₂ SameChars items items') :
    Alike (List.Forall₂ SameForm) (numberItems s axes items) (numberItems s axes items') := by
  have hzip : List.Forall₂ (fun x y => SameChars x.1 y.1 ∧ x.2 = y.2) (items.zip axes)
      (items'.zip axes) := by
    induction h generalizing axes with
    | nil => exact .nil
    | cons hfirst _ ih =>
        cases axes with
        | nil => exact .nil
        | cons axis axes => exact .cons ⟨hfirst, rfl⟩ (ih axes)
  refine Alike.mapM hzip ?_
  rintro ⟨item, axis⟩ ⟨item', _⟩ ⟨hchars, rfl⟩
  exact alike_numberItem s axis hchars

/-- A call of a function with the numbers of a text. -/
theorem alike_call (s : Scope α) (b : Builtin) (axes : List (Option Axis))
    {items items' : List Fragment} (h : List.Forall₂ SameChars items items')
    (range range' : ByteRange) :
    Alike SameForm
      (do
        let arguments ← numberItems s axes items
        return (Ast.call b.name arguments range).fold s)
      (do
        let arguments ← numberItems s axes items'
        return (Ast.call b.name arguments range').fold s) := by
  refine (alike_numberItems s axes h).bind fun arguments arguments' harguments => ?_
  refine SameForm.fold ?_ s
  rw [SameForm, Ast.withoutRanges, Ast.withoutRanges, Ast.allWithoutRanges_eq_of_forall₂ harguments]

theorem alike_tuple (s : Scope α) (b : Builtin) (axes : List (Option Axis))
    (h : SameChars text text') : Alike SameForm (text.tuple s b axes) (text'.tuple s b axes) := by
  have hlength := h.pieces.length_eq
  unfold Fragment.tuple
  simp only [hlength]
  split
  · exact alike_call s b axes h.pieces _ _
  · trivial

theorem sidesOf_cases {items items' : List Fragment} (h : List.Forall₂ SameChars items items') :
    sidesOf items = none ∧ sidesOf items' = none ∨
      ∃ sides sides', sidesOf items = some sides ∧ sidesOf items' = some sides' ∧
        List.Forall₂ SameChars sides sides' := by
  rcases h with _ | ⟨hfirst, _ | ⟨hsecond, _ | ⟨hthird, _ | ⟨hfourth, _ | ⟨_, _⟩⟩⟩⟩⟩
  · exact .inl ⟨rfl, rfl⟩
  · exact .inr ⟨_, _, rfl, rfl, .cons hfirst (.cons hfirst (.cons hfirst (.cons hfirst .nil)))⟩
  · exact .inr ⟨_, _, rfl, rfl, .cons hfirst (.cons hsecond (.cons hfirst (.cons hsecond .nil)))⟩
  · exact .inl ⟨rfl, rfl⟩
  · exact .inr ⟨_, _, rfl, rfl, .cons hfirst (.cons hsecond (.cons hthird (.cons hfourth .nil)))⟩
  · exact .inl ⟨rfl, rfl⟩

theorem alike_marginsItem (s : Scope α) (h : SameChars text text') :
    Alike SameForm (text.marginsItem s) (text'.marginsItem s) := by
  unfold Fragment.marginsItem
  rcases sidesOf_cases h.pieces with ⟨hnone, hnone'⟩ | ⟨sides, sides', hsome, hsome', hsides⟩
  · simp only [hnone, hnone']
    trivial
  · simp only [hsome, hsome']
    exact alike_call s .margins _ hsides _ _

/-! ### Transforms -/

theorem alike_transformCall (s : Scope α) (b : Builtin) (axes : List (Option Axis))
    {name name' values values' : Fragment} (hname : SameChars name name')
    (hvalues : SameChars values values') :
    Alike SameForm (transformCall s b axes name values) (transformCall s b axes name' values') := by
  have hlength := hvalues.pieces.length_eq
  unfold transformCall
  simp only [hlength, hname.text_eq]
  split
  · refine (alike_numberItems s axes hvalues.pieces).bind fun arguments arguments' harguments => ?_
    exact show SameForm _ _ by
      rw [SameForm, Ast.withoutRanges, Ast.withoutRanges,
        Ast.allWithoutRanges_eq_of_forall₂ harguments]
  · trivial

omit [Number α] in
/-- The text after a call is shorter. -/
theorem length_lt_of_call {chars inside values after : List Char}
    (hopen : (chars.dropWhile separatesCalls).dropWhile Char.isAlpha = '(' :: inside)
    (hclose : closeParen inside = some (values, after)) : after.length < chars.length := by
  have hbody := ((List.dropWhile_suffix Char.isAlpha).trans
    (List.dropWhile_suffix (l := chars) separatesCalls)).length_le
  rw [hopen, eq_append_of_closeParen hclose, List.length_cons, List.length_append,
    List.length_cons] at hbody
  omega

/-- Calls of transforms are read in the same way from any byte on. The induction is on the length
of the text. -/
theorem alike_transformCalls (s : Scope α) (offset offset' : Nat) (chars : List Char) :
    Alike (List.Forall₂ SameForm) (transformCalls s offset chars)
      (transformCalls s offset' chars) := by
  rw [transformCalls, transformCalls]
  simp only
  split
  · exact .nil
  split
  · trivial
  split
  · rename_i inside hopen
    split
    · trivial
    · split
      · trivial
      · rename_i values after hclose
        have hlength := length_lt_of_call hopen hclose
        refine Alike.bind (alike_transformCall s _ _ ?_ ?_) fun _ _ hcall =>
          Alike.bind (alike_transformCalls s _ _ after) fun _ _ hmore => ?_
        · rfl
        · rfl
        · exact .cons hcall hmore
  · trivial
termination_by chars.length

omit [Number α] in
theorem sameForm_foldl_ofBinary (op : BinaryOp) {first first' : Ast α} {more more' : List (Ast α)}
    (hfirst : first.SameForm first') (hmore : List.Forall₂ SameForm more more') :
    (more.foldl (Ast.ofBinary op) first).SameForm (more'.foldl (Ast.ofBinary op) first') := by
  induction hmore generalizing first first' with
  | nil => exact hfirst
  | cons hnext _ ih => exact ih (hfirst.ofBinary op hnext)

theorem alike_transforms (s : Scope α) (h : SameChars text text') :
    Alike SameForm (text.transforms s) (text'.transforms s) := by
  unfold Fragment.transforms
  rw [show text.chars = text'.chars from h]
  simp only
  split
  · exact Ast.sameForm_literal _ _ _
  · refine (alike_transformCalls s text.offset text'.offset _).bind fun calls calls' hcalls => ?_
    cases hcalls with
    | nil => exact Ast.sameForm_literal _ _ _
    | cons hfirst hmore => exact (sameForm_foldl_ofBinary .multiply hfirst hmore).fold s

/-! ### Text with formulas in it -/

omit [Number α] in
theorem sameForm_literalPart (start start' stop stop' : Nat) (literal : List Char) :
    List.Forall₂ SameForm (literalPart (α := α) start literal stop)
      (literalPart start' literal stop') := by
  unfold literalPart
  split
  · exact .nil
  · exact .cons (Ast.sameForm_literal _ _ _) .nil

theorem alike_templateParts (start start' offset offset' : Nat) (literal chars : List Char) :
    Alike (List.Forall₂ SameForm) (templateParts (α := α) start literal offset chars)
      (templateParts start' literal offset' chars) := by
  fun_induction templateParts (α := α) start literal offset chars generalizing start' offset' with
  | case1 start literal offset =>
      rw [templateParts.eq_1]
      exact sameForm_literalPart ..
  | case2 start literal offset rest ih =>
      rw [templateParts.eq_2]
      exact ih _ _
  | case3 start literal offset rest ih =>
      rw [templateParts.eq_3]
      exact ih _ _
  | case4 start literal offset rest hsingle =>
      rw [templateParts.eq_4 _ _ _ _ hsingle]
      trivial
  | case5 start literal offset rest hsingle =>
      rename_i hclose
      rw [templateParts.eq_5 _ _ _ _ hsingle]
      split
      · trivial
      · next h => cases hclose.symm.trans h
  | case6 start literal offset rest hsingle inner after =>
      rename_i hclose ih
      rw [templateParts.eq_5 _ _ _ _ hsingle]
      split
      · next h => cases hclose.symm.trans h
      · next h =>
          obtain ⟨rfl, rfl⟩ := Prod.mk.inj (Option.some.inj (hclose.symm.trans h))
          refine Alike.bind (alike_read ?_) fun _ _ hast => Alike.bind (ih _ _) fun _ _ hlater => ?_
          · rfl
          · exact List.rel_append (sameForm_literalPart ..) (.cons hast hlater)
  | case7 start literal offset c rest h₁ h₂ h₃ h₄ =>
      rename_i ih
      rw [templateParts.eq_6 _ _ _ _ _ h₁ h₂ h₃ h₄]
      exact ih _ _

omit [Number α] in
theorem sameForm_ofParts (range range' : ByteRange) {parts parts' : List (Ast α)}
    (h : List.Forall₂ SameForm parts parts') :
    (ofParts range parts).SameForm (ofParts range' parts') := by
  have hinterpolation : ∀ {parts parts' : List (Ast α)}, List.Forall₂ SameForm parts parts' →
      (Ast.interpolation parts range).SameForm (.interpolation parts' range') := by
    intro parts parts' h
    rw [SameForm, Ast.withoutRanges, Ast.withoutRanges, Ast.allWithoutRanges_eq_of_forall₂ h]
  cases h with
  | nil => exact Ast.sameForm_literal _ _ _
  | @cons part part' _ _ hfirst hmore =>
      cases hmore with
      | nil =>
          have hliteral : part.isLiteral = part'.isLiteral := congrArg Option.isSome hfirst.literal?_eq
          unfold ofParts
          simp only [hliteral]
          by_cases hpart : part'.isLiteral = true
          · rw [if_pos hpart, if_pos hpart]
            exact hfirst
          · rw [if_neg hpart, if_neg hpart]
            exact hinterpolation (.cons hfirst .nil)
      | cons hsecond hmore => exact hinterpolation (.cons hfirst (.cons hsecond hmore))

theorem alike_template (s : Scope α) (h : SameChars text text') :
    Alike SameForm (text.template s) (text'.template s) := by
  unfold Fragment.template
  rw [show text.chars = text'.chars from h]
  exact (alike_templateParts ..).bind fun _ _ hparts => (sameForm_ofParts _ _ hparts).fold s

/-! ### All types -/

omit [Number α] in
theorem alike_literalOf (type : ValueType) (value : Option (Value α)) :
    Alike SameForm (text.literalOf type value) (text'.literalOf type value) := by
  cases value with
  | some v => exact Ast.sameForm_literal v _ _
  | none => trivial

theorem alike_plain (context : LiteralContext α) (type : ValueType) (h : SameChars text text') :
    Alike SameForm (text.plain context type) (text'.plain context type) := by
  have hword := h.trimmed
  have hchars : text.trimmed.chars = text'.trimmed.chars := hword
  cases type with
  | scalar => exact alike_numberItem context.scope context.axis hword
  | int =>
      simp only [Fragment.plain, hchars]
      exact alike_literalOf ..
  | bool =>
      simp only [Fragment.plain, hword.text_eq]
      exact alike_literalOf ..
  | color =>
      simp only [Fragment.plain, hword.text_eq]
      exact alike_literalOf ..
  | transform => exact alike_transforms context.scope h
  | rect => exact alike_tuple context.scope .rect _ h
  | size => exact alike_tuple context.scope .size _ h
  | point => exact alike_tuple context.scope .point _ h
  | margins => exact alike_marginsItem context.scope h
  | «enum» members =>
      simp only [Fragment.plain, hword.text_eq]
      split
      · exact Ast.sameForm_literal _ _ _
      · trivial
  | any =>
      simp only [Fragment.plain, hchars]
      split
      · exact Ast.sameForm_literal _ _ _
      · exact alike_template context.scope h
  | _ => trivial

/-- Two expressions are the same, the ranges in their formulas aside. -/
def SameExpression : Expression α (Value α) → Expression α (Value α) → Prop
  | .constant v, .constant w => v = w
  | .formula f, .formula g => f.ast.SameForm g.ast ∧ f.type = g.type
  | _, _ => False

theorem alike_settle (type : ValueType) {ast ast' : Ast α} (h : ast.SameForm ast') :
    Alike SameExpression (text.settle type ast) (text'.settle type ast') := by
  unfold Fragment.settle
  rw [h.literal?_eq]
  split
  · exact ⟨h, rfl⟩
  · split
    · rfl
    · trivial

theorem alike_settleBraced (s : Scope α) (type : ValueType) (h : SameChars text text')
    {other other' : Except FormatError (Ast α)} (hother : Alike SameForm other other') :
    Alike SameExpression (text.settleBraced s type other) (text'.settleBraced s type other') := by
  unfold Fragment.settleBraced
  rcases h.braced?_cases with ⟨hnone, hnone'⟩ | ⟨inner, inner', hsome, hsome', hinner⟩
  · simp only [hnone, hnone']
    exact hother.bind fun _ _ hast => alike_settle type hast
  · simp only [hsome, hsome']
    exact (alike_readFolded s hinner).bind fun _ _ hast => alike_settle type hast

theorem sameForm_list (s : Scope α) (range range' : ByteRange) {items items' : List (Ast α)}
    (h : List.Forall₂ SameForm items items') :
    ((Ast.list items range).fold s).SameForm ((Ast.list items' range').fold s) := by
  refine SameForm.fold ?_ s
  rw [SameForm, Ast.withoutRanges, Ast.withoutRanges, Ast.allWithoutRanges_eq_of_forall₂ h]

omit [Number α] in
theorem SameExpression.toAst [Number α] {e e' : Expression α (Value α)} (h : SameExpression e e') :
    e.toAst.SameForm e'.toAst := by
  cases e <;> cases e'
  · rw [show _ = _ from h]
    rfl
  · exact h.elim
  · exact h.elim
  · exact h.1

/-- Reading a literal of any type in another place gives the same expression, or fails as well.
The induction is on the type. -/
theorem alike_readTyped (context : LiteralContext α) (type : ValueType) (h : SameChars text text') :
    Alike SameExpression (readTyped context type text) (readTyped context type text') := by
  fun_induction readTyped context type text generalizing text' with
  | case1 text =>
      rw [readTyped]
      exact (alike_template context.scope h).bind fun _ _ hast => alike_settle .string hast
  | case2 text =>
      rw [readTyped]
      exact (alike_template context.scope h).bind fun _ _ hast => alike_settle .path hast
  | case3 text =>
      rw [readTyped]
      refine alike_settleBraced context.scope _ h ?_
      refine (Alike.mapM h.pieces fun _ _ hpiece => ?_).bind fun _ _ hitems =>
        sameForm_list context.scope _ _ hitems
      exact alike_numberItem context.scope context.axis hpiece
  | case4 type text hscalar ih =>
      rw [readTyped.eq_4 _ _ _ hscalar]
      refine alike_settleBraced context.scope _ h ?_
      refine (Alike.mapM h.pieces fun piece piece' hpiece => ih piece hpiece).bind
        fun items items' hitems => sameForm_list context.scope _ _ ?_
      exact List.rel_map (fun _ _ he => he.toAst) hitems
  | case5 type text hstring hpath hscalars hlist =>
      rw [readTyped.eq_5 _ _ _ hstring hpath hscalars hlist]
      exact alike_settleBraced context.scope type h (alike_plain context type h)

end

end PatternMarkup
