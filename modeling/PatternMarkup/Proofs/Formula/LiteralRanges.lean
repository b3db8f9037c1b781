import PatternMarkup.Proofs.Formula.LiteralTrees
import PatternMarkup.Proofs.Formula.NodeRanges
import PatternMarkup.Proofs.Formula.SlicedReading
import PatternMarkup.Proofs.Formula.TextParts
/-!
The ranges that reading reports. A reader passes on ranges of its text only: of tokens, of items and
of what it found between them. Main statement: reading a literal meets no fault, and every range of
the error, or of the tree of the formula, starts and ends between characters of the text.
-/

namespace PatternMarkup

/-! ### Answers -/

variable {β γ : Type} {p q : ByteRange → Prop}

/-- The result is a good one, or an error at a range of some kind. -/
def AnswersIn (p : ByteRange → Prop) (good : β → Prop) : Except FormatError β → Prop
  | .ok x => good x
  | .error e => p e.range

namespace AnswersIn

variable {good good' : β → Prop} {better : γ → Prop} {result : Except FormatError β}

theorem bind {next : β → Except FormatError γ} (h : AnswersIn p good result)
    (hnext : ∀ x, good x → AnswersIn p better (next x)) : AnswersIn p better (result >>= next) := by
  cases result with
  | ok x => exact hnext x h
  | error e => exact h

theorem map {f : β → γ} (h : AnswersIn p good result) (hf : ∀ x, good x → better (f x)) :
    AnswersIn p better (result.map f) := by
  cases result with
  | ok x => exact hf x h
  | error e => exact h

theorem mono (h : AnswersIn p good result) (hrange : ∀ r, p r → q r)
    (hgood : ∀ x, good x → good' x) : AnswersIn q good' result := by
  cases result with
  | ok x => exact hgood x h
  | error e => exact hrange e.range h

theorem mapM {xs : List β} {read : β → Except FormatError γ}
    (h : ∀ x ∈ xs, AnswersIn p better (read x)) :
    AnswersIn p (fun ys => ∀ y ∈ ys, better y) (xs.mapM read) := by
  induction xs with
  | nil => exact List.forall_mem_nil _
  | cons x rest ih =>
      obtain ⟨hfirst, hrest⟩ := List.forall_mem_cons.mp h
      rw [List.mapM_cons]
      refine hfirst.bind fun y hy => (ih hrest).bind fun ys hys => ?_
      exact List.forall_mem_cons.mpr ⟨hy, hys⟩

end AnswersIn

/-! ### Trees -/

namespace Ast

variable {α : Type}

/-- The ranges of a formula, and of all formulas in it, are of some kind. -/
def RangesIn (p : ByteRange → Prop) (ast : Ast α) : Prop := ∀ t ∈ ast.subterms, p t.range

theorem rangesIn_iff {ast : Ast α} :
    ast.RangesIn p ↔ p ast.range ∧ ∀ child ∈ ast.children, child.RangesIn p := by
  unfold RangesIn
  rw [subterms_eq, List.forall_mem_cons]
  refine and_congr_right fun _ => ⟨fun h child hchild t ht => ?_, fun h t ht => ?_⟩
  · exact h t (mem_subtermsOfAll.mpr ⟨child, hchild, ht⟩)
  · obtain ⟨child, hchild, ht⟩ := mem_subtermsOfAll.mp ht
    exact h child hchild t ht

theorem RangesIn.range {ast : Ast α} (h : ast.RangesIn p) : p ast.range := (rangesIn_iff.mp h).1

theorem RangesIn.child {ast : Ast α} (h : ast.RangesIn p) : ∀ child ∈ ast.children,
    child.RangesIn p := (rangesIn_iff.mp h).2

theorem RangesIn.mono {ast : Ast α} (h : ast.RangesIn p) (hrange : ∀ r, p r → q r) :
    ast.RangesIn q := fun t ht => hrange t.range (h t ht)

theorem rangesIn_literal {range : ByteRange} (h : p range) (v : Value α) :
    (literal v range).RangesIn p := rangesIn_iff.mpr ⟨h, List.forall_mem_nil _⟩

theorem rangesIn_ofBinary {op : BinaryOp} {left right : Ast α} (hleft : left.RangesIn p)
    (hright : right.RangesIn p) (hunion : p (left.range.union right.range)) :
    (ofBinary op left right).RangesIn p :=
  rangesIn_iff.mpr ⟨hunion, by simp [children, ofBinary, hleft, hright]⟩

theorem rangesIn_literalOr {result : Except EvalError (Value α)} {otherwise : Ast α}
    (h : otherwise.RangesIn p) : (literalOr result otherwise).RangesIn p := by
  cases result with
  | ok v => exact rangesIn_literal h.range v
  | error e => exact h

theorem rangesIn_foldOnLiterals {operands : List (Ast α)} {otherwise : Ast α}
    {operation : List (Value α) → Except EvalError (Value α)} (h : otherwise.RangesIn p) :
    (foldOnLiterals operands operation otherwise).RangesIn p := by
  unfold foldOnLiterals
  split
  · exact rangesIn_literalOr h
  · exact h

variable [Number α]

mutual

/-- Folding keeps ranges. -/
theorem rangesIn_foldWith (hidden : String → Bool) :
    (ast : Ast α) → ast.RangesIn p → (ast.foldWith hidden).RangesIn p
  | literal value range, h => by
      rw [foldWith]
      exact h
  | name n range, h => by
      rw [foldWith]
      split
      · exact rangesIn_literal h.range _
      · exact h
  | list items range, h => by
      rw [foldWith]
      exact rangesIn_foldOnLiterals
        (rangesIn_iff.mpr ⟨h.range, rangesIn_foldAll hidden items h.child⟩)
  | unary op operand range, h => by
      have hoperand := rangesIn_foldWith hidden operand (h.child operand (by simp [children]))
      have hparts : (unary op (operand.foldWith hidden) range).RangesIn p :=
        rangesIn_iff.mpr ⟨h.range, List.forall_mem_singleton.mpr hoperand⟩
      rw [foldWith]
      split
      · exact rangesIn_literalOr hparts
      · exact hparts
  | binary op left right range, h => by
      have hleft := rangesIn_foldWith hidden left (h.child left (by simp [children]))
      have hright := rangesIn_foldWith hidden right (h.child right (by simp [children]))
      have hparts : (binary op (left.foldWith hidden) (right.foldWith hidden) range).RangesIn p :=
        rangesIn_iff.mpr ⟨h.range, by simp [children, hleft, hright]⟩
      rw [foldWith]
      split
      · exact rangesIn_literalOr hparts
      · exact hparts
  | conditional condition then_ else_ range, h => by
      have hcondition :=
        rangesIn_foldWith hidden condition (h.child condition (by simp [children]))
      have hthen := rangesIn_foldWith hidden then_ (h.child then_ (by simp [children]))
      have helse := rangesIn_foldWith hidden else_ (h.child else_ (by simp [children]))
      rw [foldWith, foldConditional]
      split
      · split
        · exact hthen
        · exact helse
      · exact rangesIn_iff.mpr ⟨h.range, by simp [children, hcondition, hthen, helse]⟩
  | call function arguments range, h => by
      have hparts : (call function (foldAll hidden arguments) range).RangesIn p :=
        rangesIn_iff.mpr ⟨h.range, rangesIn_foldAll hidden arguments h.child⟩
      rw [foldWith]
      split
      · exact hparts
      · exact rangesIn_foldOnLiterals hparts
  | member object m range, h => by
      have hobject := rangesIn_foldWith hidden object (h.child object (by simp [children]))
      have hparts : (member (object.foldWith hidden) m range).RangesIn p :=
        rangesIn_iff.mpr ⟨h.range, List.forall_mem_singleton.mpr hobject⟩
      rw [foldWith]
      split
      · exact rangesIn_literalOr hparts
      · exact hparts
  | index object i range, h => by
      have hobject := rangesIn_foldWith hidden object (h.child object (by simp [children]))
      have hi := rangesIn_foldWith hidden i (h.child i (by simp [children]))
      have hparts : (index (object.foldWith hidden) (i.foldWith hidden) range).RangesIn p :=
        rangesIn_iff.mpr ⟨h.range, by simp [children, hobject, hi]⟩
      rw [foldWith]
      split
      · exact rangesIn_literalOr hparts
      · exact hparts
  | interpolation parts range, h => by
      rw [foldWith]
      exact rangesIn_foldOnLiterals
        (rangesIn_iff.mpr ⟨h.range, rangesIn_foldAll hidden parts h.child⟩)

theorem rangesIn_foldAll (hidden : String → Bool) : (asts : List (Ast α)) →
    (∀ ast ∈ asts, ast.RangesIn p) → ∀ ast ∈ foldAll hidden asts, ast.RangesIn p
  | [], _ => List.forall_mem_nil _
  | ast :: rest, h => by
      obtain ⟨hfirst, hrest⟩ := List.forall_mem_cons.mp h
      exact List.forall_mem_cons.mpr
        ⟨rangesIn_foldWith hidden ast hfirst, rangesIn_foldAll hidden rest hrest⟩

end

end Ast

open Ast

variable {α : Type}

/-- A formula, or an error, in ranges of a kind is in those of a wider kind. -/
theorem AnswersIn.widen {result : Except FormatError (Ast α)}
    (h : AnswersIn p (RangesIn p) result) (hrange : ∀ r, p r → q r) :
    AnswersIn q (RangesIn q) result := h.mono hrange fun _ hast => hast.mono hrange

variable [Number α]

/-! ### Formulas -/

namespace FormulaParser

/-- The ranges of the tokens are of some kind. -/
def AllIn (p : ByteRange → Prop) (tokens : List PlacedToken) : Prop := ∀ t ∈ tokens, p t.range

variable {stop : Nat} (hstop : p ⟨stop, stop⟩)

include hstop in
theorem answersIn_expectSign (sign : Sign) {tokens : List PlacedToken} (h : AllIn p tokens) :
    AnswersIn p (AllIn p ·.rest) (expectSign α stop sign tokens) := by
  cases tokens with
  | nil => exact hstop
  | cons t rest =>
      obtain ⟨ht, hrest⟩ := List.forall_mem_cons.mp h
      rw [expectSign]
      split
      · exact hrest
      · exact ht

mutual

/-- Reading a formula fails at the end of the text or at one of its tokens. The induction follows
the reader: what it leaves are tokens of the text. -/
theorem answersIn_expression (hstop : p ⟨stop, stop⟩) (tokens : List PlacedToken)
    (h : AllIn p tokens) :
    AnswersIn p (AllIn p ·.rest) (expression (α := α) stop tokens) := by
  rw [expression]
  refine (answersIn_operation hstop BinaryOp.loosest tokens h).bind ?_
  rintro ⟨condition, rest, hshort⟩ hrest
  split
  case h_1 _ range after hafter =>
    obtain rfl : rest = _ := hafter
    have hlen : after.length < tokens.length := Nat.lt_of_succ_lt hshort
    refine (answersIn_expression hstop after (List.forall_mem_cons.mp hrest).2).bind ?_
    rintro ⟨then_, afterThen, hthen⟩ hrestThen
    refine (answersIn_expectSign hstop .colon hrestThen).bind ?_
    rintro ⟨last, afterColon, hcolon⟩ hrestColon
    have hlenColon : afterColon.length < tokens.length :=
      Nat.lt_trans (Nat.lt_trans hcolon hthen) hlen
    exact (answersIn_expression hstop afterColon hrestColon).bind fun _ hrestElse => hrestElse
  case h_2 => exact hrest
termination_by (tokens.length, BinaryOp.loosest + 3)

theorem answersIn_operation (hstop : p ⟨stop, stop⟩) (k : Nat) (tokens : List PlacedToken)
    (h : AllIn p tokens) :
    AnswersIn p (AllIn p ·.rest) (operation (α := α) stop k tokens) := by
  cases k with
  | zero =>
      rw [operation]
      exact answersIn_unary hstop tokens h
  | succ k =>
      rw [operation]
      refine (answersIn_operation hstop k tokens h).bind ?_
      rintro ⟨first, rest, hshort⟩ hrest
      exact (answersIn_operations hstop k first rest hrest).bind fun _ hall => hall
termination_by (tokens.length, k + 2)

theorem answersIn_operations (hstop : p ⟨stop, stop⟩) (k : Nat) (left : Ast α) :
    (tokens : List PlacedToken) → AllIn p tokens →
    AnswersIn p (AllIn p ·.rest) (operations stop k left tokens)
  | [], h => by
      rw [operations]
      exact h
  | t :: rest, h => by
      rw [operations]
      split
      case h_1 => exact h
      case h_2 op _ =>
        refine (answersIn_operation hstop k rest (List.forall_mem_cons.mp h).2).bind ?_
        rintro ⟨right, after, hshort⟩ hafter
        exact (answersIn_operations hstop k (.ofBinary op left right) after hafter).bind
          fun _ hall => hall
termination_by tokens => (tokens.length, 0)

theorem answersIn_unary (hstop : p ⟨stop, stop⟩) : (tokens : List PlacedToken) → AllIn p tokens →
    AnswersIn p (AllIn p ·.rest) (unary (α := α) stop tokens)
  | [], _ => by
      rw [unary]
      exact hstop
  | t :: rest, h => by
      obtain ⟨ht, hrest⟩ := List.forall_mem_cons.mp h
      rw [unary]
      split
      case h_1 => exact (answersIn_unary hstop rest hrest).bind fun _ hall => hall
      case h_2 =>
        refine (answersIn_primary hstop t ht rest hrest).bind ?_
        rintro ⟨first, after, hshort⟩ hafter
        exact (answersIn_suffixes hstop first after hafter).bind fun _ hall => hall
termination_by tokens => (tokens.length, 1)

theorem answersIn_suffixes (hstop : p ⟨stop, stop⟩) (object : Ast α) (tokens : List PlacedToken)
    (h : AllIn p tokens) : AnswersIn p (AllIn p ·.rest) (suffixes stop object tokens) := by
  rw [suffixes.eq_def]
  split
  case h_1 name range rest =>
    have hrest : AllIn p rest := fun t ht =>
      h t (List.mem_cons_of_mem _ (List.mem_cons_of_mem _ ht))
    exact (answersIn_suffixes hstop _ rest hrest).bind fun _ hall => hall
  case h_2 => exact hstop
  case h_3 dot found rest hword => exact h found (by simp)
  case h_4 opening rest =>
    refine (answersIn_expression hstop rest (List.forall_mem_cons.mp h).2).bind ?_
    rintro ⟨index, after, hindex⟩ hafter
    refine (answersIn_expectSign hstop .closeBracket hafter).bind ?_
    rintro ⟨last, behind, hclose⟩ hbehind
    -- The recursion is on what follows the bracket, which is less than what follows `[`.
    have : behind.length < rest.length + 1 := Nat.lt_succ_of_lt (Nat.lt_trans hclose hindex)
    exact (answersIn_suffixes hstop _ behind hbehind).bind fun _ hall => hall
  case h_5 => exact h
termination_by (tokens.length, 0)

theorem answersIn_primary (hstop : p ⟨stop, stop⟩) (first : PlacedToken) (hfirst : p first.range)
    (tokens : List PlacedToken) (h : AllIn p tokens) :
    AnswersIn p (AllIn p ·.rest) (primary (α := α) stop first tokens) := by
  rw [primary.eq_def]
  split
  case h_1 => exact h
  case h_2 => exact h
  case h_3 => exact h
  case h_4 =>
    split
    case h_1 opening rest =>
      exact (answersIn_sequence hstop .closeParen rest (List.forall_mem_cons.mp h).2).bind
        fun _ hall => hall
    case h_2 => exact h
  case h_5 =>
    refine (answersIn_expression hstop tokens h).bind ?_
    rintro ⟨inner, after, hinner⟩ hafter
    exact (answersIn_expectSign hstop .closeParen hafter).bind fun _ hall => hall
  case h_6 => exact (answersIn_sequence hstop .closeBracket tokens h).bind fun _ hall => hall
  case h_7 => exact hfirst
termination_by (tokens.length, BinaryOp.loosest + 6)

theorem answersIn_sequence (hstop : p ⟨stop, stop⟩) (close : Sign) :
    (tokens : List PlacedToken) → AllIn p tokens →
    AnswersIn p (AllIn p ·.rest) (sequence (α := α) stop close tokens)
  | [], h => by
      rw [sequence]
      exact answersIn_items hstop close [] h
  | t :: rest, h => by
      rw [sequence]
      split
      · exact (List.forall_mem_cons.mp h).2
      · exact answersIn_items hstop close (t :: rest) h
termination_by tokens => (tokens.length, BinaryOp.loosest + 5)

theorem answersIn_items (hstop : p ⟨stop, stop⟩) (close : Sign) (tokens : List PlacedToken)
    (h : AllIn p tokens) :
    AnswersIn p (AllIn p ·.rest) (items (α := α) stop close tokens) := by
  rw [items]
  refine (answersIn_expression hstop tokens h).bind ?_
  rintro ⟨ast, rest, hshort⟩ hrest
  split
  case h_1 _ range after hafter =>
    obtain rfl : rest = _ := hafter
    have hlen : after.length < tokens.length := Nat.lt_of_succ_lt hshort
    exact (answersIn_items hstop close after (List.forall_mem_cons.mp hrest).2).bind
      fun _ hall => hall
  case h_2 => exact (answersIn_expectSign hstop close hrest).bind fun _ hall => hall
termination_by (tokens.length, BinaryOp.loosest + 4)

end

theorem answersIn_whole (hstop : p ⟨stop, stop⟩) {tokens : List PlacedToken}
    (h : AllIn p tokens) : AnswersIn p (fun _ => True) (whole (α := α) stop tokens) := by
  rw [whole]
  refine (answersIn_expression hstop tokens h).bind ?_
  rintro ⟨ast, rest, hshort⟩ hrest
  cases rest with
  | nil => trivial
  | cons t rest => exact (List.forall_mem_cons.mp hrest).1

end FormulaParser

open FormulaParser FormulaScan Fragment

/-- The tokens of a text are in its ranges, and so is the place where it has none. -/
theorem answersIn_scanFormula (offset : Nat) (text : List Char) :
    AnswersIn (Holds ⟨offset, text⟩) (AllIn (Holds ⟨offset, text⟩)) (scanFormula offset text) := by
  fun_induction scanFormula offset text with
  | case1 offset => exact List.forall_mem_nil _
  | case2 offset c rest hspace ih =>
      have hrest := contains_after offset [c] rest
      exact ih.mono (fun _ => hrest.holds) fun _ hall t ht => hrest.holds (hall t ht)
  | case3 offset c rest hspace reading stop =>
      have hplace : HasPlace ⟨offset, c :: rest⟩ stop :=
        ⟨_, _, (List.take_append_drop reading.count (c :: rest)).symm, rfl⟩
      exact hplace.holds_from
  | case4 offset c rest hspace reading stop =>
      rename_i token htoken more hmore ih
      rw [hmore] at ih
      obtain ⟨written, later, rfl, hreads⟩ := readsBefore_of_read htoken
      have hreading := hreads later List.prefix_rfl
      simp only [stop, reading, hreading, List.take_succ_cons, List.take_left,
        Nat.add_sub_cancel, List.drop_left] at ih ⊢
      have hlater := contains_after offset (c :: written) later
      refine List.forall_mem_cons.mpr ⟨?_, fun t ht => hlater.holds (ih t ht)⟩
      exact (hlater.hasPlace (hasPlace_offset _)).holds_from
  | case5 offset c rest hspace reading stop =>
      rename_i token htoken e hmore ih
      rw [hmore] at ih
      obtain ⟨written, later, rfl, hreads⟩ := readsBefore_of_read htoken
      have hreading := hreads later List.prefix_rfl
      simp only [stop, reading, hreading, List.take_succ_cons, List.take_left,
        Nat.add_sub_cancel, List.drop_left] at ih
      exact (contains_after offset (c :: written) later).holds ih

/-- A formula that is placed in a text has a range of the text. -/
theorem holds_of_isPlacedIn {base : Nat} {text : List Char} {ast : Ast α}
    (h : ast.IsPlacedIn base text) : Holds ⟨base, text⟩ ast.range := by
  obtain ⟨piece, hslice, -⟩ := h.readsBack
  have hle := h.base_le
  have hlt := h.nonempty
  have hpiece : Utf8.slice? text (ast.range.start - base) (ast.range.stop - base) = some piece := by
    rw [Utf8.slice?, if_pos (by omega)]
    exact hslice
  have hholds : Holds ⟨base, text⟩
      ⟨base + (ast.range.start - base), base + (ast.range.stop - base)⟩ :=
    Utf8.holds_of_slice? hpiece
  have hstop : base + (ast.range.stop - base) = ast.range.stop := by omega
  rwa [Nat.add_sub_cancel' hle, hstop] at hholds

theorem answersIn_read (text : Fragment) :
    AnswersIn text.Holds (RangesIn text.Holds) (Ast.read (α := α) text) := by
  have hread : AnswersIn text.Holds (fun _ => True) (Ast.read (α := α) text) :=
    (answersIn_scanFormula text.offset text.chars).bind fun tokens htokens =>
      answersIn_whole text.hasPlace_stop.holds htokens
  cases hast : Ast.read (α := α) text with
  | error e =>
      rw [hast] at hread
      exact hread
  | ok ast =>
      intro t ht
      exact holds_of_isPlacedIn ((read_ranges_faithful text.offset text.chars).1 ast hast t ht)

theorem answersIn_readFolded (s : Scope α) (text : Fragment) :
    AnswersIn text.Holds (RangesIn text.Holds) (readFolded s text) :=
  (answersIn_read text).map fun ast h => rangesIn_foldWith s.shadows ast h

/-! ### Templates -/

omit [Number α] in
/-- The literal before a formula has a range up to it. -/
theorem rangesIn_literalPart {start stop : Nat} {literal : List Char} (h : p ⟨start, stop⟩) :
    ∀ part ∈ (literalPart start literal stop : List (Ast α)), part.RangesIn p := by
  unfold literalPart
  split
  · exact List.forall_mem_nil _
  · exact List.forall_mem_singleton.mpr (rangesIn_literal h _)

/-- The kind has all ranges of a text, and those from an offset up to a place in it. -/
structure Covers (p : ByteRange → Prop) (start : Nat) (text : Fragment) : Prop where
  holds : ∀ r, text.Holds r → p r
  reaches : ∀ stop, text.HasPlace stop → p ⟨start, stop⟩

theorem Covers.part {start : Nat} {text part : Fragment} (h : Covers p start text)
    (hpart : text.Contains part) : Covers p start part :=
  ⟨fun r hr => h.holds r (hpart.holds hr), fun stop hstop => h.reaches stop (hpart.hasPlace hstop)⟩

/-- From the start of a part on. -/
theorem Covers.within {start : Nat} {text part : Fragment} (h : Covers p start text)
    (hpart : text.Contains part) : Covers p part.offset part :=
  ⟨(h.part hpart).holds, fun _ hstop => h.holds _ (hpart.holds hstop.holds_from)⟩

omit [Number α] in
theorem covers_holds (text : Fragment) : Covers text.Holds text.offset text :=
  ⟨fun _ => id, fun _ hstop => hstop.holds_from⟩

theorem answersIn_templateParts {start offset : Nat} {literal text : List Char}
    (h : Covers p start ⟨offset, text⟩) :
    AnswersIn p (fun parts => ∀ part ∈ parts, RangesIn p part)
      (templateParts (α := α) start literal offset text) := by
  fun_induction templateParts (α := α) start literal offset text with
  | case1 start literal offset =>
      exact rangesIn_literalPart (h.reaches offset (hasPlace_offset _))
  | case2 start literal offset rest ih =>
      exact ih (h.part (contains_after offset ['\x7b', '\x7b'] rest))
  | case3 start literal offset rest ih =>
      exact ih (h.part (contains_after offset ['\x7d', '\x7d'] rest))
  | case4 start literal offset rest =>
      have hrest := contains_after offset ['\x7d'] rest
      exact h.holds _ (hrest.hasPlace (hasPlace_offset _)).holds_from
  | case5 start literal offset rest =>
      have hrest := contains_after offset ['\x7b'] rest
      exact h.holds _ (hrest.hasPlace (hasPlace_offset _)).holds_from
  | case6 start literal offset rest hsingle inner after =>
      rename_i hclose ih
      have hrest := eq_append_of_closeBrace hclose
      have hinner : Contains ⟨offset, '\x7b' :: rest⟩ ⟨offset + 1, inner⟩ :=
        ⟨['\x7b'], '\x7d' :: after, congrArg _ hrest, rfl⟩
      have hafter : Contains ⟨offset, '\x7b' :: rest⟩ ⟨offset + byteLength inner + 2, after⟩ := by
        have hlength := Utf8.byteLength_concat_braced [] inner
        rw [List.nil_append, byteLength_nil] at hlength
        refine ⟨'\x7b' :: (inner ++ ['\x7d']), [], ?_, ?_⟩
        · rw [hrest]
          simp
        · rw [hlength]
          simp only
          omega
      refine ((answersIn_read _).widen (h.part hinner).holds).bind fun ast hast => ?_
      refine (ih (h.within hafter)).bind fun later hlater => ?_
      refine List.forall_mem_append.mpr ⟨?_, List.forall_mem_cons.mpr ⟨hast, hlater⟩⟩
      exact rangesIn_literalPart (h.reaches offset (hasPlace_offset _))
  | case7 start literal offset c rest =>
      rename_i ih
      exact ih (h.part (contains_after offset [c] rest))

omit [Number α] in
/-- A single part stands alone, several in the range of the text. -/
theorem rangesIn_ofParts {range : ByteRange} (hrange : p range) {parts : List (Ast α)}
    (h : ∀ part ∈ parts, part.RangesIn p) : (ofParts range parts).RangesIn p := by
  unfold ofParts
  split
  · exact rangesIn_literal hrange _
  · split
    · exact h _ List.mem_cons_self
    · exact rangesIn_iff.mpr ⟨hrange, h⟩
  · exact rangesIn_iff.mpr ⟨hrange, h⟩

theorem answersIn_template (s : Scope α) (text : Fragment) :
    AnswersIn text.Holds (RangesIn text.Holds) (text.template s) :=
  (answersIn_templateParts (covers_holds text)).bind fun _ hparts =>
    rangesIn_foldWith s.shadows _ (rangesIn_ofParts text.holds_range hparts)

/-! ### Numbers and lists of them -/

omit [Number α] in
theorem answersIn_fractionOf (s : Scope α) (axis : Axis) (fraction : α) {range : ByteRange}
    (h : p range) : AnswersIn p (RangesIn p) (fractionOf s axis fraction range) := by
  unfold fractionOf
  split
  · have hname : (Ast.name axis.extentName range : Ast α).RangesIn p :=
      rangesIn_iff.mpr ⟨h, List.forall_mem_nil _⟩
    refine rangesIn_ofBinary hname (rangesIn_literal h _) ?_
    rw [Ast.range, Ast.range, ByteRange.union, Nat.min_self, Nat.max_self]
    exact h
  · exact h

theorem answersIn_plainItem (s : Scope α) (axis : Option Axis) (text : Fragment) :
    AnswersIn text.Holds (RangesIn text.Holds) (Utf8.plainItem s axis text) := by
  have hrange := text.holds_range
  unfold Utf8.plainItem
  split
  · exact hrange
  · exact rangesIn_literal hrange _
  · exact answersIn_fractionOf s _ _ hrange
  · split
    · exact rangesIn_literal hrange _
    · exact hrange

theorem answersIn_numberItem (s : Scope α) (axis : Option Axis) (text : Fragment) :
    AnswersIn text.Holds (RangesIn text.Holds) (text.numberItem s axis) := by
  rw [Utf8.numberItem_eq]
  split
  case h_1 inner hinner =>
    have hpart := Utf8.contains_braced? hinner
    exact (answersIn_readFolded s inner).widen fun _ => hpart.holds
  case h_2 => exact answersIn_plainItem s axis text

theorem answersIn_numberItems (s : Scope α) (axes : List (Option Axis)) {text : Fragment}
    {items : List Fragment} (h : Utf8.AreParts text items) :
    AnswersIn text.Holds (fun asts => ∀ ast ∈ asts, RangesIn text.Holds ast)
      (numberItems s axes items) := by
  refine AnswersIn.mapM ?_
  rintro ⟨item, axis⟩ hitem
  have hpart := h item (List.of_mem_zip hitem).1
  exact (answersIn_numberItem s axis item).widen fun _ => hpart.holds

/-- A call of a function with the numbers of a text. -/
theorem answersIn_call (s : Scope α) (b : Builtin) (axes : List (Option Axis)) {text : Fragment}
    {items : List Fragment} (h : Utf8.AreParts text items) :
    AnswersIn text.Holds (RangesIn text.Holds) (do
      let arguments ← numberItems s axes items
      return (Ast.call b.name arguments text.range).fold s) :=
  (answersIn_numberItems s axes h).bind fun _ harguments =>
    rangesIn_foldWith s.shadows _ (rangesIn_iff.mpr ⟨text.holds_range, harguments⟩)

theorem answersIn_tuple (s : Scope α) (b : Builtin) (axes : List (Option Axis)) (text : Fragment) :
    AnswersIn text.Holds (RangesIn text.Holds) (text.tuple s b axes) := by
  rw [Fragment.tuple]
  split
  · exact answersIn_call s b axes (Utf8.areParts_pieces text)
  · exact text.holds_range

theorem answersIn_marginsItem (s : Scope α) (text : Fragment) :
    AnswersIn text.Holds (RangesIn text.Holds) (text.marginsItem s) := by
  rw [Fragment.marginsItem]
  split
  case h_1 sides hsides =>
    exact answersIn_call s .margins _ fun side hside =>
      Utf8.areParts_pieces text side (mem_of_sidesOf hsides hside)
  case h_2 => exact text.holds_range

/-! ### Transforms -/

theorem answersIn_transformCall (s : Scope α) (b : Builtin) (axes : List (Option Axis))
    {text name values : Fragment} (hvalues : text.Contains values)
    (hrange : text.Holds ⟨name.offset, values.stop + 1⟩) :
    AnswersIn text.Holds (RangesIn text.Holds) (transformCall s b axes name values) := by
  have hitems : Utf8.AreParts text values.pieces := fun item hitem =>
    hvalues.trans (Utf8.areParts_pieces values item hitem)
  rw [transformCall]
  split
  · exact (answersIn_numberItems s axes hitems).bind fun _ harguments =>
      rangesIn_iff.mpr ⟨hrange, harguments⟩
  · exact hrange

theorem contains_dropWhile (keep : Char → Bool) (offset : Nat) (text : List Char) :
    Contains ⟨offset, text⟩ ⟨offset + byteLength (text.takeWhile keep), text.dropWhile keep⟩ := by
  have hcut := contains_after offset (text.takeWhile keep) (text.dropWhile keep)
  rwa [List.takeWhile_append_dropWhile] at hcut

theorem contains_takeWhile (keep : Char → Bool) (offset : Nat) (text : List Char) :
    Contains ⟨offset, text⟩ ⟨offset, text.takeWhile keep⟩ :=
  ⟨[], text.dropWhile keep, List.takeWhile_append_dropWhile.symm, rfl⟩

/-- The values between parentheses, and the text behind them. -/
theorem contains_of_closeParen (offset : Nat) {inside values after : List Char}
    (hclose : closeParen inside = some (values, after)) :
    Contains ⟨offset, '(' :: inside⟩ ⟨offset + 1, values⟩ ∧
      Contains ⟨offset, '(' :: inside⟩ ⟨offset + 1 + byteLength values + 1, after⟩ := by
  obtain rfl := eq_append_of_closeParen hclose
  refine ⟨⟨['('], ')' :: after, rfl, rfl⟩, ?_⟩
  have hafter := contains_after (offset + 1) values (')' :: after)
  have hbehind := contains_after (offset + 1 + byteLength values) [')'] after
  exact (contains_after offset ['('] _).trans (hafter.trans hbehind)

theorem answersIn_transformCalls (s : Scope α) (offset : Nat) (text : List Char) :
    AnswersIn (Holds ⟨offset, text⟩) (fun asts => ∀ ast ∈ asts, RangesIn (Holds ⟨offset, text⟩) ast)
      (transformCalls s offset text) := by
  fun_induction transformCalls s offset text with
  | case1 offset text body hbody => exact List.forall_mem_nil _
  | case2 offset text => exact (contains_dropWhile separatesCalls offset text).holds_range
  | case3 offset text front body begin =>
      have hname := contains_takeWhile Char.isAlpha begin body
      exact ((contains_dropWhile separatesCalls offset text).trans hname).holds_range
  | case4 offset text front body begin =>
      have hbody := contains_dropWhile separatesCalls offset text
      exact (hbody.hasPlace (hasPlace_stop _)).holds
  | case5 offset text front body begin hbody name hname inside hopen b axes hfunction values =>
      rename_i after hclose first ih
      have hbody := contains_dropWhile separatesCalls offset text
      have hbehind := contains_dropWhile Char.isAlpha begin body
      rw [hopen] at hbehind
      obtain ⟨hvalues, hafter⟩ := contains_of_closeParen (begin + byteLength name) hclose
      have hvalues := hbody.trans (hbehind.trans hvalues)
      have hafter := hbody.trans (hbehind.trans hafter)
      have hrange : Holds ⟨offset, text⟩ ⟨begin, first + byteLength values + 1⟩ := by
        refine ⟨?_, hbody.hasPlace (hasPlace_offset _), hafter.hasPlace (hasPlace_offset _)⟩
        simp only [first]
        omega
      refine (answersIn_transformCall s b axes hvalues hrange).bind fun call hcall => ?_
      refine (ih.mono (fun _ => hafter.holds) fun _ hall ast hast =>
        (hall ast hast).mono fun _ => hafter.holds).bind fun more hmore => ?_
      exact List.forall_mem_cons.mpr ⟨hcall, hmore⟩
  | case6 offset text => exact (contains_dropWhile separatesCalls offset text).holds_range

omit [Number α] in
theorem rangesIn_foldl_ofBinary (op : BinaryOp) {text : Fragment} {first : Ast α}
    (hfirst : first.RangesIn text.Holds) {more : List (Ast α)}
    (hmore : ∀ ast ∈ more, ast.RangesIn text.Holds) :
    (more.foldl (ofBinary op) first).RangesIn text.Holds := by
  induction more generalizing first with
  | nil => exact hfirst
  | cons ast rest ih =>
      obtain ⟨hast, hrest⟩ := List.forall_mem_cons.mp hmore
      exact ih (rangesIn_ofBinary hfirst hast (hfirst.range.union hast.range)) hrest

theorem answersIn_transforms (s : Scope α) (text : Fragment) :
    AnswersIn text.Holds (RangesIn text.Holds) (text.transforms s) := by
  have hidentity := rangesIn_literal text.holds_range (.transform .identity : Value α)
  rw [Fragment.transforms]
  split
  · exact hidentity
  · refine (answersIn_transformCalls s text.offset text.chars).bind fun calls hcalls => ?_
    cases calls with
    | nil => exact hidentity
    | cons first more =>
        obtain ⟨hfirst, hmore⟩ := List.forall_mem_cons.mp hcalls
        exact rangesIn_foldWith s.shadows _ (rangesIn_foldl_ofBinary .multiply hfirst hmore)

/-! ### All types -/

omit [Number α] in
theorem answersIn_literalOf (text : Fragment) (type : ValueType) (value : Option (Value α)) :
    AnswersIn text.Holds (RangesIn text.Holds) (text.literalOf type value) := by
  cases value with
  | some v => exact rangesIn_literal text.holds_range v
  | none => exact text.holds_range

theorem answersIn_plain (context : LiteralContext α) (type : ValueType) (text : Fragment) :
    AnswersIn text.Holds (RangesIn text.Holds) (text.plain context type) := by
  have hword := contains_trimmed text
  have hrange := hword.holds_range
  have hliteral : ∀ value, AnswersIn text.Holds (RangesIn text.Holds)
      (text.trimmed.literalOf type value : Except FormatError (Ast α)) := fun value =>
    (answersIn_literalOf text.trimmed type value).widen fun _ => hword.holds
  cases type with
  | scalar =>
      exact (answersIn_numberItem context.scope context.axis text.trimmed).widen
        fun _ => hword.holds
  | int => exact hliteral _
  | bool => exact hliteral _
  | color => exact hliteral _
  | transform => exact answersIn_transforms context.scope text
  | rect => exact answersIn_tuple context.scope .rect _ text
  | size => exact answersIn_tuple context.scope .size _ text
  | point => exact answersIn_tuple context.scope .point _ text
  | margins => exact answersIn_marginsItem context.scope text
  | «enum» members =>
      rw [Fragment.plain]
      split
      · exact rangesIn_literal hrange _
      · exact hrange
  | any =>
      rw [Fragment.plain]
      split
      · exact rangesIn_literal hrange _
      · exact answersIn_template context.scope text
  | _ => exact hrange

/-- The ranges of the tree of an expression that is not a constant are of some kind. -/
def Expression.RangesIn (p : ByteRange → Prop) (e : Expression α (Value α)) : Prop :=
  ∀ f, e = .formula f → f.ast.RangesIn p

theorem answersIn_settle (text : Fragment) (type : ValueType) {ast : Ast α}
    (hrange : p text.range) (h : ast.RangesIn p) :
    AnswersIn p (Expression.RangesIn p) (text.settle type ast) := by
  unfold Fragment.settle
  split
  · rintro _ ⟨rfl⟩
    exact h
  · split
    · exact nofun
    · exact hrange

theorem answersIn_settleBraced (s : Scope α) (text : Fragment) (type : ValueType)
    {other : Except FormatError (Ast α)} (hp : ∀ r, text.Holds r → p r)
    (h : AnswersIn p (RangesIn p) other) :
    AnswersIn p (Expression.RangesIn p) (text.settleBraced s type other) := by
  have hrange := hp text.range text.holds_range
  unfold Fragment.settleBraced
  split
  case h_1 inner hinner =>
    have hpart := Utf8.contains_braced? hinner
    exact ((answersIn_readFolded s inner).widen fun r hr => hp r (hpart.holds hr)).bind
      fun _ hast => answersIn_settle text type hrange hast
  case h_2 => exact h.bind fun _ hast => answersIn_settle text type hrange hast

omit [Number α] in
/-- The tree of a constant is at the empty range at the start. -/
theorem Expression.RangesIn.toAst {e : Expression α (Value α)} (h : e.RangesIn p)
    (hzero : p ⟨0, 0⟩) : e.toAst.RangesIn p := by
  cases e with
  | constant v => exact Ast.rangesIn_literal hzero v
  | formula f => exact h f rfl

/-- A list of formulas that were read from parts of a text. -/
theorem rangesIn_list (s : Scope α) {text : Fragment} (hp : ∀ r, text.Holds r → p r)
    {items : List (Ast α)} (h : ∀ item ∈ items, item.RangesIn p) :
    ((Ast.list items text.trimmed.range).fold s).RangesIn p :=
  rangesIn_foldWith s.shadows _
    (rangesIn_iff.mpr ⟨hp _ (contains_trimmed text).holds_range, h⟩)

/-- Reading a literal of any type reports ranges of the text, and of the empty text that constants
in a list are at. The induction is on the type. -/
theorem answersIn_readTyped (context : LiteralContext α) (type : ValueType) (text : Fragment)
    (hzero : p ⟨0, 0⟩) (hp : ∀ r, text.Holds r → p r) :
    AnswersIn p (Expression.RangesIn p) (readTyped context type text) := by
  fun_induction readTyped context type text with
  | case1 text =>
      exact ((answersIn_template context.scope text).widen hp).bind
        fun _ hast => answersIn_settle text .string (hp _ text.holds_range) hast
  | case2 text =>
      exact ((answersIn_template context.scope text).widen hp).bind
        fun _ hast => answersIn_settle text .path (hp _ text.holds_range) hast
  | case3 text =>
      have hitems : AnswersIn p (fun asts => ∀ ast ∈ asts, RangesIn p ast)
          (text.pieces.mapM fun item => item.numberItem context.scope context.axis) :=
        .mapM fun item hitem => (answersIn_numberItem context.scope context.axis item).widen
          fun r hr => hp r ((Utf8.areParts_pieces text item hitem).holds hr)
      exact answersIn_settleBraced context.scope text _ hp
        (hitems.bind fun _ hasts => rangesIn_list context.scope hp hasts)
  | case4 type text hscalar ih =>
      have hitems : AnswersIn p (fun es => ∀ e ∈ es, Expression.RangesIn p e)
          (text.pieces.mapM fun item => readTyped context type item) :=
        .mapM fun item hitem =>
          ih item fun r hr => hp r ((Utf8.areParts_pieces text item hitem).holds hr)
      refine answersIn_settleBraced context.scope text _ hp
        (hitems.bind fun es hes => rangesIn_list context.scope hp ?_)
      intro ast hast
      obtain ⟨e, he, rfl⟩ := List.mem_map.mp hast
      cases e with
      | constant v => exact rangesIn_literal hzero v
      | formula f => exact hes _ he f rfl
  | case5 type text =>
      exact answersIn_settleBraced context.scope text type hp
        ((answersIn_plain context type text).widen hp)

/-- Literals are read safely at every position. For every text, type, scope and axis: reading by
byte offsets, where a slice that starts or ends inside a character and a brace that closes too many
are faults, has no fault and gives what reading by characters gives. The range of the error, if
there is one, and the ranges of all formulas in a formula that is read start and end between
characters of the text, and none ends before it starts. -/
theorem readTyped_positions (context : LiteralContext α) (type : ValueType) (text : String) :
    Utf8.readTyped context type (.ofString text 0) =
        some (readTyped context type (.ofString text 0)) ∧
      (∀ e, readTyped context type (.ofString text 0) = .error e →
        (Fragment.ofString text 0).Holds e.range) ∧
      ∀ f, readTyped context type (.ofString text 0) = .ok (.formula f) →
        ∀ t ∈ f.ast.subterms, (Fragment.ofString text 0).Holds t.range := by
  have hranges : AnswersIn (Fragment.ofString text 0).Holds
      (Expression.RangesIn (Fragment.ofString text 0).Holds)
      (readTyped context type (.ofString text 0)) :=
    answersIn_readTyped context type _ (hasPlace_offset _).holds fun _ => id
  refine ⟨Utf8.readTyped_gives context type _, fun e he => ?_, fun f hf => ?_⟩
  · rw [he] at hranges
    exact hranges
  · rw [hf] at hranges
    exact hranges f rfl

/-! ### Faults of types -/

/-- The faults are at ranges of some kind. -/
def TypeError.AllIn (p : ByteRange → Prop) (errors : List TypeError) : Prop :=
  ∀ e ∈ errors, p e.range

namespace TypeError.AllIn

variable {errors more : List TypeError}

theorem nil : AllIn p [] := List.forall_mem_nil _

theorem append (h : AllIn p errors) (hmore : AllIn p more) : AllIn p (errors ++ more) :=
  List.forall_mem_append.mpr ⟨h, hmore⟩

theorem singleton (fault : TypeFault) {range : ByteRange} (h : p range) :
    AllIn p [⟨fault, range⟩] :=
  List.forall_mem_singleton.mpr h

end TypeError.AllIn

theorem allIn_expectType (expected found : ValueType) {range : ByteRange} (h : p range) :
    TypeError.AllIn p (expectType expected found range) := by
  unfold expectType
  split
  · exact .nil
  · exact .singleton _ h

theorem allIn_expectTypes (expected : List ValueType) {arguments : ArgumentTypes}
    (h : ∀ arg ∈ arguments, p arg.2) : TypeError.AllIn p (expectTypes expected arguments) := by
  fun_induction expectTypes expected arguments with
  | case1 expected rest found range more ih =>
      obtain ⟨hrange, hmore⟩ := List.forall_mem_cons.mp h
      exact (allIn_expectType expected found hrange).append (ih hmore)
  | case2 => exact .nil

namespace Ast

omit [Number α] in
theorem allIn_checkIndex (object i : ValueType) {range : ByteRange} (h : p range) :
    TypeError.AllIn p (checkIndex object i range).errors := by
  unfold checkIndex
  split
  · exact .nil
  · exact .nil
  · exact .singleton _ h

theorem allIn_checkName (s : Scope α) (n : String) {range : ByteRange} (h : p range) :
    TypeError.AllIn p (checkName s n range).errors := by
  unfold checkName
  split
  · exact .nil
  · split
    · exact .nil
    · exact .singleton _ h

omit [Number α] in
theorem allIn_checkCall (s : Scope α) (function : String) {arguments : ArgumentTypes}
    (harguments : ∀ arg ∈ arguments, p arg.2) {range : ByteRange} (h : p range) :
    TypeError.AllIn p (checkCall s function arguments range).errors := by
  unfold checkCall
  split
  · unfold HostFunction.check
    split
    · exact allIn_expectTypes _ harguments
    · exact .singleton _ h
  · split
    · unfold Builtin.check
      simp only
      refine .append ?_ (allIn_expectTypes _ harguments)
      split
      · exact .nil
      · exact .singleton _ h
    · exact .singleton _ h

/-- What the check finds in several formulas is at their ranges, and at those of all in them. -/
theorem allIn_checkAll {s : Scope α} {asts : List (Ast α)} (h : ∀ ast ∈ asts, ast.RangesIn p)
    (hcheck : ∀ ast ∈ asts, TypeError.AllIn p (ast.check s).errors) :
    (∀ arg ∈ (checkAll s asts).1, p arg.2) ∧ TypeError.AllIn p (checkAll s asts).2 := by
  induction asts with
  | nil => exact ⟨List.forall_mem_nil _, .nil⟩
  | cons ast rest ih =>
      obtain ⟨hfirst, hrest⟩ := List.forall_mem_cons.mp h
      obtain ⟨hchecked, hcheck⟩ := List.forall_mem_cons.mp hcheck
      obtain ⟨htypes, herrors⟩ := ih hrest hcheck
      rw [checkAll]
      exact ⟨List.forall_mem_cons.mpr ⟨hfirst.range, htypes⟩, hchecked.append herrors⟩

/-- The faults that the check finds in a formula are at ranges of the formula. -/
theorem allIn_check (s : Scope α) (ast : Ast α) (h : ast.RangesIn p) :
    TypeError.AllIn p (ast.check s).errors := by
  induction ast using induction_on_children with
  | step ast ih =>
  have hparts : ∀ child ∈ ast.children, TypeError.AllIn p (child.check s).errors :=
    fun child hchild => ih child hchild (h.child child hchild)
  have hrange := h.range
  cases ast with
  | literal value range => rw [check]; exact .nil
  | name n range => rw [check]; exact allIn_checkName s n hrange
  | list items range =>
      rw [check]
      exact (allIn_checkAll h.child hparts).2
  | unary op operand range =>
      have hoperand := hparts operand (by simp [children])
      rw [check]
      split
      · exact hoperand
      · exact hoperand.append (.singleton _ hrange)
  | binary op left right range =>
      have hboth := (hparts left (by simp [children])).append (hparts right (by simp [children]))
      rw [check]
      split
      · exact hboth
      · exact hboth.append (.singleton _ hrange)
  | conditional condition then_ else_ range =>
      have hcondition := hparts condition (by simp [children])
      have hexpected := allIn_expectType .bool (condition.check s).type
        (h.child condition (by simp [children])).range
      have hthen := hparts then_ (by simp [children])
      have helse := hparts else_ (by simp [children])
      rw [check]
      exact ((hcondition.append hexpected).append hthen).append helse
  | call function arguments range =>
      obtain ⟨htypes, herrors⟩ := allIn_checkAll h.child hparts
      rw [check]
      exact herrors.append (allIn_checkCall s function htypes hrange)
  | member object m range =>
      have hobject := hparts object (by simp [children])
      rw [check]
      split
      · exact hobject
      · exact hobject.append (.singleton _ hrange)
  | index object i range =>
      have hboth := (hparts object (by simp [children])).append (hparts i (by simp [children]))
      have hexpected := allIn_expectType .int (i.check s).type
        (h.child i (by simp [children])).range
      rw [check]
      exact (hboth.append hexpected).append (allIn_checkIndex _ _ hrange)
  | interpolation parts range =>
      rw [check]
      exact (allIn_checkAll h.child hparts).2

theorem allIn_checkAs (s : Scope α) (expected : ValueType) (ast : Ast α) (h : ast.RangesIn p) :
    TypeError.AllIn p (ast.checkAs s expected) := by
  have hcheck := allIn_check s ast h
  unfold checkAs
  simp only
  split
  · exact hcheck
  · exact hcheck.append (.singleton _ h.range)

end Ast

end PatternMarkup
