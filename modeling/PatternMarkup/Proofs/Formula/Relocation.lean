import PatternMarkup.Proofs.Formula.GrammarReading
/-!
Formulas in another place. Reading looks at the kinds of tokens and never at where they stand, so
a text that starts some bytes further on is read the same way: every place in the formula, or in
the error, is that many bytes further on, and nothing else changes.
-/

namespace PatternMarkup

/-! ### Places further on -/

/-- The same token, `base` bytes further on. -/
def PlacedToken.shift (base : Nat) (t : PlacedToken) : PlacedToken := ⟨t.token, t.range.shift base⟩

/-- The same error, `base` bytes further on. -/
def FormatError.shift (base : Nat) (e : FormatError) : FormatError := ⟨e.fault, e.range.shift base⟩

theorem ByteRange.union_shift (left right : ByteRange) (base : Nat) :
    (left.union right).shift base = (left.shift base).union (right.shift base) := by
  rw [union, shift, union, shift, shift, Nat.add_min_add_right, Nat.add_max_add_right]

namespace Ast

variable {α : Type}

mutual

/-- The same formula, `base` bytes further on. -/
def shift (base : Nat) : Ast α → Ast α
  | literal value range => .literal value (range.shift base)
  | name n range => .name n (range.shift base)
  | list items range => .list (allShift base items) (range.shift base)
  | unary op operand range => .unary op (operand.shift base) (range.shift base)
  | binary op left right range =>
      .binary op (left.shift base) (right.shift base) (range.shift base)
  | conditional condition then_ else_ range =>
      .conditional (condition.shift base) (then_.shift base) (else_.shift base) (range.shift base)
  | call function arguments range =>
      .call function (allShift base arguments) (range.shift base)
  | member object m range => .member (object.shift base) m (range.shift base)
  | index object i range => .index (object.shift base) (i.shift base) (range.shift base)
  | interpolation parts range => .interpolation (allShift base parts) (range.shift base)

/-- The same formulas, `base` bytes further on. -/
def allShift (base : Nat) : List (Ast α) → List (Ast α)
  | [] => []
  | ast :: rest => ast.shift base :: allShift base rest

end

attribute [local simp] shift allShift

@[simp] theorem range_shift (base : Nat) (ast : Ast α) :
    (ast.shift base).range = ast.range.shift base := by
  cases ast <;> rw [shift] <;> rfl

theorem shift_withRange (base : Nat) (r : ByteRange) (ast : Ast α) :
    (ast.withRange r).shift base = (ast.shift base).withRange (r.shift base) := by
  cases ast <;> rw [withRange, shift, shift, withRange]

theorem shift_ofBinary (base : Nat) (op : BinaryOp) (left right : Ast α) :
    (ofBinary op left right).shift base = ofBinary op (left.shift base) (right.shift base) := by
  rw [ofBinary, shift, ofBinary, range_shift, range_shift, ByteRange.union_shift]

end Ast

namespace FormulaParser

/-! ### The same result further on -/

/-- Both fail, the second `base` bytes further on, or both give results that are related. -/
def Matches (base : Nat) {β γ : Type} (related : β → γ → Prop) :
    Except FormatError β → Except FormatError γ → Prop
  | .ok b, .ok c => related b c
  | .error e, .error f => f = e.shift base
  | _, _ => False

theorem Matches.bind {base : Nat} {β γ δ ε : Type} {related : β → γ → Prop}
    {result : δ → ε → Prop} {x : Except FormatError β} {y : Except FormatError γ}
    {f : β → Except FormatError δ} {g : γ → Except FormatError ε} (h : Matches base related x y)
    (hnext : ∀ b c, related b c → Matches base result (f b) (g c)) :
    Matches base result (x >>= f) (y >>= g) := by
  cases x <;> cases y
  · exact h
  · exact h.elim
  · exact h.elim
  · exact hnext _ _ h

variable {α : Type} [Number α]

/-- The second formula and its rest are the first ones, further on. -/
def Parsed.Moves (base : Nat) {n m : Nat} (p : Parsed α n) (q : Parsed α m) : Prop :=
  q.ast = p.ast.shift base ∧ q.rest = p.rest.map (·.shift base)

def ParsedItems.Moves (base : Nat) {n m : Nat} (p : ParsedItems α n) (q : ParsedItems α m) :
    Prop :=
  q.items = Ast.allShift base p.items ∧ q.stop = p.stop + base ∧
    q.rest = p.rest.map (·.shift base)

def Closed.Moves (base : Nat) {n m : Nat} (p : Closed n) (q : Closed m) : Prop :=
  q.stop = p.stop + base ∧ q.rest = p.rest.map (·.shift base)

theorem expectSign_shift (base stop : Nat) (sign : Sign) (tokens : List PlacedToken) :
    Matches base (Closed.Moves base) (expectSign α stop sign tokens)
      (expectSign α (stop + base) sign (tokens.map (·.shift base))) := by
  cases tokens with
  | nil => rfl
  | cons t rest =>
      rw [List.map_cons, expectSign, expectSign]
      by_cases ht : t.token = .sign sign
      · rw [if_pos ht, if_pos (by exact ht)]
        exact ⟨rfl, rfl⟩
      · rw [if_neg ht, if_neg (by exact ht)]
        rfl

theorem eq_cons_of_map_shift {base : Nat} {tokens later : List PlacedToken}
    {token : FormulaToken} {range : ByteRange}
    (h : tokens.map (·.shift base) = ⟨token, range⟩ :: later) :
    ∃ place after, tokens = ⟨token, place⟩ :: after := by
  obtain ⟨⟨found, place⟩, after, rfl, ht, -⟩ := List.map_eq_cons_iff.mp h
  obtain rfl : found = token := congrArg PlacedToken.token ht
  exact ⟨place, after, rfl⟩

mutual

/-- Reading the same tokens further on gives the same formula, or error, further on. The induction
follows the reader. -/
theorem expression_shift (base stop : Nat) (tokens : List PlacedToken) :
    Matches base (Parsed.Moves base) (expression (α := α) stop tokens)
      (expression (stop + base) (tokens.map (·.shift base))) := by
  rw [expression, expression]
  refine (operation_shift base stop BinaryOp.loosest tokens).bind ?_
  rintro ⟨condition, rest, hshort⟩ ⟨_, _, hshort'⟩ ⟨rfl, rfl⟩
  split
  case h_1 _ range after hrest =>
    obtain rfl : rest = _ := hrest
    have hlen : after.length < tokens.length := Nat.lt_of_succ_lt hshort
    refine (expression_shift base stop after).bind ?_
    rintro ⟨then_, afterThen, hthen⟩ ⟨_, _, hthen'⟩ ⟨rfl, rfl⟩
    refine (expectSign_shift base stop .colon afterThen).bind ?_
    rintro ⟨last, afterColon, hcolon⟩ ⟨_, _, hcolon'⟩ ⟨rfl, rfl⟩
    have hlenColon : afterColon.length < tokens.length :=
      Nat.lt_trans (Nat.lt_trans hcolon hthen) hlen
    refine (expression_shift base stop afterColon).bind ?_
    rintro ⟨else_, afterElse, helse⟩ ⟨_, _, helse'⟩ ⟨rfl, rfl⟩
    refine ⟨?_, rfl⟩
    simp only [Ast.shift, Ast.range_shift]
    rfl
  case h_2 hnone =>
    split
    case h_1 _ range after hrest =>
      obtain ⟨place, later, rfl⟩ := eq_cons_of_map_shift hrest
      exact absurd rfl (hnone place later)
    case h_2 => exact ⟨rfl, rfl⟩
termination_by (tokens.length, BinaryOp.loosest + 3)

theorem operation_shift (base stop k : Nat) (tokens : List PlacedToken) :
    Matches base (Parsed.Moves base) (operation (α := α) stop k tokens)
      (operation (stop + base) k (tokens.map (·.shift base))) := by
  cases k with
  | zero =>
      rw [operation, operation]
      exact unary_shift base stop tokens
  | succ k =>
      rw [operation, operation]
      refine (operation_shift base stop k tokens).bind ?_
      rintro ⟨first, rest, hshort⟩ ⟨_, _, hshort'⟩ ⟨rfl, rfl⟩
      refine (operations_shift base stop k first rest).bind ?_
      rintro p q ⟨hast, hrest⟩
      exact ⟨hast, hrest⟩
termination_by (tokens.length, k + 2)

theorem operations_shift (base stop k : Nat) (left : Ast α) : (tokens : List PlacedToken) →
    Matches base (Parsed.Moves base) (operations stop k left tokens)
      (operations (stop + base) k (left.shift base) (tokens.map (·.shift base)))
  | [] => by
      rw [List.map_nil, operations, operations]
      exact ⟨rfl, rfl⟩
  | t :: rest => by
      rw [List.map_cons, operations, operations]
      have hop : operator? (k + 1) (t.shift base) = operator? (k + 1) t := rfl
      rw [hop]
      split
      case h_1 => exact ⟨rfl, rfl⟩
      case h_2 op _ =>
        refine (operation_shift base stop k rest).bind ?_
        rintro ⟨right, after, hshort⟩ ⟨_, _, hshort'⟩ ⟨rfl, rfl⟩
        have hmore := operations_shift base stop k (.ofBinary op left right) after
        rw [Ast.shift_ofBinary] at hmore
        refine hmore.bind ?_
        rintro p q ⟨hast, hrest⟩
        exact ⟨hast, hrest⟩
termination_by tokens => (tokens.length, 0)

theorem unary_shift (base stop : Nat) : (tokens : List PlacedToken) →
    Matches base (Parsed.Moves base) (unary (α := α) stop tokens)
      (unary (stop + base) (tokens.map (·.shift base)))
  | [] => by
      rw [List.map_nil, unary, unary]
      rfl
  | t :: rest => by
      rw [List.map_cons, unary, unary]
      have hop : unaryOperator? (t.shift base) = unaryOperator? t := rfl
      rw [hop]
      split
      case h_1 op _ =>
        refine (unary_shift base stop rest).bind ?_
        rintro ⟨operand, after, hshort⟩ ⟨_, _, hshort'⟩ ⟨rfl, rfl⟩
        refine ⟨?_, rfl⟩
        simp only [Ast.shift, Ast.range_shift]
        rfl
      case h_2 =>
        refine (primary_shift base stop t rest).bind ?_
        rintro ⟨first, after, hshort⟩ ⟨_, _, hshort'⟩ ⟨rfl, rfl⟩
        refine (suffixes_shift base stop first after).bind ?_
        rintro p q ⟨hast, hrest⟩
        exact ⟨hast, hrest⟩
termination_by tokens => (tokens.length, 1)

theorem suffixes_shift (base stop : Nat) (object : Ast α) (tokens : List PlacedToken) :
    Matches base (Parsed.Moves base) (suffixes stop object tokens)
      (suffixes (stop + base) (object.shift base) (tokens.map (·.shift base))) := by
  rw [suffixes.eq_def stop]
  split
  case h_1 name range rest =>
    rw [List.map_cons, List.map_cons, PlacedToken.shift, PlacedToken.shift, suffixes]
    have hmore := suffixes_shift base stop (.member object name (object.range.through range)) rest
    rw [Ast.shift] at hmore
    rw [Ast.range_shift]
    refine hmore.bind ?_
    rintro p q ⟨hast, hrest⟩
    exact ⟨hast, hrest⟩
  case h_2 dot =>
    rw [List.map_cons, List.map_nil, PlacedToken.shift, suffixes]
    rfl
  case h_3 dot found rest hword =>
    obtain ⟨token, range⟩ := found
    rw [List.map_cons, List.map_cons, suffixes.eq_def (stop + base)]
    cases token with
    | word name => exact absurd rfl (hword name range)
    | _ => rfl
  case h_4 opening rest =>
    rw [List.map_cons, PlacedToken.shift, suffixes]
    refine (expression_shift base stop rest).bind ?_
    rintro ⟨index, after, hindex⟩ ⟨_, _, hindex'⟩ ⟨rfl, rfl⟩
    refine (expectSign_shift base stop .closeBracket after).bind ?_
    rintro ⟨last, behind, hclose⟩ ⟨_, _, hclose'⟩ ⟨rfl, rfl⟩
    -- The recursion is on what follows the bracket, which is less than what follows `[`.
    have : behind.length < rest.length + 1 := Nat.lt_succ_of_lt (Nat.lt_trans hclose hindex)
    have hmore := suffixes_shift base stop (.index object index ⟨object.range.start, last⟩) behind
    rw [Ast.shift] at hmore
    rw [Ast.range_shift]
    refine hmore.bind ?_
    rintro p q ⟨hast, hrest⟩
    exact ⟨hast, hrest⟩
  case h_5 hdot hdotLast hdotOther hopen =>
    have hshort : ∀ place after, tokens ≠ ⟨.sign .dot, place⟩ :: after := by
      rintro place (_ | ⟨found, after⟩) rfl
      · exact hdotLast place rfl
      · exact hdotOther place found after rfl
    generalize hmoved : tokens.map (·.shift base) = moved
    rw [suffixes.eq_def (stop + base)]
    split
    case h_5 => exact ⟨rfl, hmoved.symm⟩
    case h_4 =>
      obtain ⟨place, after, rfl⟩ := eq_cons_of_map_shift hmoved
      exact absurd rfl (hopen place after)
    all_goals
      obtain ⟨place, after, rfl⟩ := eq_cons_of_map_shift hmoved
      exact absurd rfl (hshort place after)
termination_by (tokens.length, 0)

theorem primary_shift (base stop : Nat) (first : PlacedToken) (tokens : List PlacedToken) :
    Matches base (Parsed.Moves base) (primary (α := α) stop first tokens)
      (primary (stop + base) (first.shift base) (tokens.map (·.shift base))) := by
  obtain ⟨token, place⟩ := first
  rw [primary.eq_def stop, primary.eq_def (stop + base)]
  cases token with
  | number written => exact ⟨rfl, rfl⟩
  | text written => exact ⟨rfl, rfl⟩
  | truth b => exact ⟨rfl, rfl⟩
  | word name =>
      dsimp only
      split
      case h_1 opening rest =>
        refine (sequence_shift base stop .closeParen rest).bind ?_
        rintro ⟨arguments, last, after, hshort⟩ ⟨_, _, _, hshort'⟩ ⟨rfl, rfl, rfl⟩
        refine ⟨?_, rfl⟩
        simp only [Ast.shift]
        rfl
      case h_2 hnone =>
        generalize hmoved : tokens.map (·.shift base) = moved
        dsimp only [PlacedToken.shift]
        split
        case h_1 =>
          obtain ⟨range, after, rfl⟩ := eq_cons_of_map_shift hmoved
          exact absurd rfl (hnone range after)
        case h_2 => exact ⟨rfl, hmoved.symm⟩
  | sign s =>
      cases s with
      | openParen =>
          refine (expression_shift base stop tokens).bind ?_
          rintro ⟨inner, after, hinner⟩ ⟨_, _, hinner'⟩ ⟨rfl, rfl⟩
          refine (expectSign_shift base stop .closeParen after).bind ?_
          rintro ⟨last, behind, hclose⟩ ⟨_, _, hclose'⟩ ⟨rfl, rfl⟩
          exact ⟨(Ast.shift_withRange base ⟨place.start, last⟩ inner).symm, rfl⟩
      | openBracket =>
          refine (sequence_shift base stop .closeBracket tokens).bind ?_
          rintro ⟨items, last, after, hshort⟩ ⟨_, _, _, hshort'⟩ ⟨rfl, rfl, rfl⟩
          refine ⟨?_, rfl⟩
          simp only [Ast.shift]
          rfl
      | _ => rfl
termination_by (tokens.length, BinaryOp.loosest + 6)

theorem sequence_shift (base stop : Nat) (close : Sign) : (tokens : List PlacedToken) →
    Matches base (ParsedItems.Moves base) (sequence (α := α) stop close tokens)
      (sequence (stop + base) close (tokens.map (·.shift base)))
  | [] => by
      rw [List.map_nil, sequence, sequence]
      exact items_shift base stop close []
  | t :: rest => by
      rw [List.map_cons, sequence, sequence]
      by_cases ht : t.token = .sign close
      · rw [if_pos ht, if_pos (by exact ht)]
        exact ⟨by rw [Ast.allShift], rfl, rfl⟩
      · rw [if_neg ht, if_neg (by exact ht)]
        exact items_shift base stop close (t :: rest)
termination_by tokens => (tokens.length, BinaryOp.loosest + 5)

theorem items_shift (base stop : Nat) (close : Sign) (tokens : List PlacedToken) :
    Matches base (ParsedItems.Moves base) (items (α := α) stop close tokens)
      (items (stop + base) close (tokens.map (·.shift base))) := by
  rw [items, items]
  refine (expression_shift base stop tokens).bind ?_
  rintro ⟨ast, rest, hshort⟩ ⟨_, _, hshort'⟩ ⟨rfl, rfl⟩
  split
  case h_1 _ range after hrest =>
    obtain rfl : rest = _ := hrest
    have hlen : after.length < tokens.length := Nat.lt_of_succ_lt hshort
    refine (items_shift base stop close after).bind ?_
    rintro ⟨more, last, behind, hmore⟩ ⟨_, _, _, hmore'⟩ ⟨rfl, rfl, rfl⟩
    exact ⟨by rw [Ast.allShift], rfl, rfl⟩
  case h_2 hnone =>
    split
    case h_1 _ range after hrest =>
      obtain ⟨place, later, rfl⟩ := eq_cons_of_map_shift hrest
      exact absurd rfl (hnone place later)
    case h_2 =>
      refine (expectSign_shift base stop close rest).bind ?_
      rintro ⟨last, behind, hclose⟩ ⟨_, _, hclose'⟩ ⟨rfl, rfl⟩
      exact ⟨by rw [Ast.allShift, Ast.allShift], rfl, rfl⟩
termination_by (tokens.length, BinaryOp.loosest + 4)

end

theorem whole_shift (base stop : Nat) (tokens : List PlacedToken) :
    Matches base (fun ast moved => moved = ast.shift base) (whole (α := α) stop tokens)
      (whole (stop + base) (tokens.map (·.shift base))) := by
  rw [whole, whole]
  refine (expression_shift base stop tokens).bind ?_
  rintro ⟨ast, rest, hshort⟩ ⟨_, _, hshort'⟩ ⟨rfl, rfl⟩
  cases rest with
  | nil => rfl
  | cons t rest => rfl

end FormulaParser

open FormulaParser (Matches whole_shift)

/-- A text that starts further on has the same tokens, or the same error, further on. -/
theorem scanFormula_shift (base offset : Nat) (text : List Char) :
    Matches base (fun tokens moved => moved = tokens.map (·.shift base))
      (scanFormula offset text) (scanFormula (offset + base) text) := by
  fun_induction scanFormula offset text with
  | case1 offset =>
      rw [scanFormula]
      rfl
  | case2 offset c rest hspace ih =>
      rw [scanFormula, if_pos hspace, Nat.add_right_comm]
      exact ih
  | case3 offset c rest hspace reading stop =>
      rename_i htoken
      have hstop : offset + base + byteLength ((c :: rest).take reading.count) = stop + base :=
        Nat.add_right_comm _ _ _
      rw [scanFormula, if_neg hspace]
      simp only
      rw [htoken, hstop]
      rfl
  | case4 offset c rest hspace reading stop =>
      rename_i token htoken tokens hmore ih
      have hstop : offset + base + byteLength ((c :: rest).take reading.count) = stop + base :=
        Nat.add_right_comm _ _ _
      rw [scanFormula, if_neg hspace]
      simp only
      rw [htoken, hstop]
      rw [hmore] at ih
      generalize scanFormula (stop + base) (rest.drop (reading.count - 1)) = later at ih ⊢
      cases later with
      | error e => exact ih.elim
      | ok moved => exact congrArg (_ :: ·) ih
  | case5 offset c rest hspace reading stop =>
      rename_i token htoken e hmore ih
      have hstop : offset + base + byteLength ((c :: rest).take reading.count) = stop + base :=
        Nat.add_right_comm _ _ _
      rw [scanFormula, if_neg hspace]
      simp only
      rw [htoken, hstop]
      rw [hmore] at ih
      generalize scanFormula (stop + base) (rest.drop (reading.count - 1)) = later at ih ⊢
      cases later with
      | error f => exact ih
      | ok moved => exact ih.elim

variable {α : Type} [Number α]

/-- A formula that is read from a text `base` bytes further on is the same formula with every
place `base` bytes further on, and so is the error where there is none. -/
theorem Ast.read_shift (base : Nat) (text : List Char) :
    Ast.read (α := α) ⟨base, text⟩ =
      ((Ast.read ⟨0, text⟩).map (Ast.shift base)).mapError (FormatError.shift base) := by
  have hread : Matches base (fun ast moved => moved = ast.shift base)
      (Ast.read (α := α) ⟨0, text⟩) (Ast.read ⟨base, text⟩) := by
    have hscan := scanFormula_shift base 0 text
    rw [Nat.zero_add] at hscan
    refine hscan.bind ?_
    rintro tokens _ rfl
    have hwhole := whole_shift (α := α) base (Fragment.mk 0 text).stop tokens
    have hstop : (Fragment.mk 0 text).stop + base = (Fragment.mk base text).stop := by
      rw [Fragment.stop, Fragment.stop, Nat.zero_add, Nat.add_comm]
    rw [hstop] at hwhole
    exact hwhole
  revert hread
  cases Ast.read (α := α) ⟨0, text⟩ <;> cases Ast.read (α := α) ⟨base, text⟩
  case error.error e f => exact congrArg Except.error
  case error.ok => exact False.elim
  case ok.error => exact False.elim
  case ok.ok ast moved => exact congrArg Except.ok

end PatternMarkup
