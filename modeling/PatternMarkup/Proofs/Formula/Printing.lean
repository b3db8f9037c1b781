import Mathlib
import PatternMarkup.Number.Double
import PatternMarkup.Proofs.Formula.NodesRead
/-!
Reading a printed formula. Parentheses stand around operators between operands and around
conditionals, never around a sign before an operand: a signed object is printed like the sign of
what is taken from it. Apart from such objects, and from literals whose text is not theirs, the
text of a formula is read as that formula.
-/

namespace PatternMarkup

open FormulaGrammar FormulaScan

/-! ### Derivations of what is printed -/

namespace FormulaGrammar

variable {α : Type} [Number α]

/-- Operands between operators of a level are operands of every looser level. -/
theorem exists_raised {j k : Nat} (hjk : j ≤ k) (d : Operation j) :
    ∃ d' : Operation k, d'.tokens = d.tokens ∧ (d'.ast : Ast α) = d.ast := by
  induction hjk with
  | refl => exact ⟨d, rfl, rfl⟩
  | step _ ih =>
      obtain ⟨d', htokens, hast⟩ := ih
      refine ⟨.level d' .done, ?_, ?_⟩
      · rw [Operation.tokens, Tail.tokens, List.append_nil, htokens]
      · rw [Operation.ast, Tail.ast, hast]

theorem exists_operation (k : Nat) (d : Unary) :
    ∃ o : Operation k, o.tokens = d.tokens ∧ (o.ast : Ast α) = d.ast := by
  obtain ⟨o, htokens, hast⟩ := exists_raised (α := α) (Nat.zero_le k) (.operand d)
  rw [Operation.tokens] at htokens
  rw [Operation.ast] at hast
  exact ⟨o, htokens, hast⟩

/-- An operand is a formula. -/
theorem exists_expr (d : Unary) :
    ∃ e : Expr, e.tokens = d.tokens ∧ (e.ast : Ast α) = d.ast := by
  obtain ⟨o, htokens, hast⟩ := exists_operation (α := α) 6 d
  refine ⟨.plain o, ?_, ?_⟩
  · rw [Expr.tokens, htokens]
  · rw [Expr.ast, hast]

theorem exists_operatorAt (op : BinaryOp) :
    ∃ k ≤ 5, ∃ s, OperatorAt (k + 1) s op ∧ s.text = op.symbol ∧ s ≠ .dot := by
  have hle := op.looseness_le_loosest
  have hpos := op.looseness_pos
  refine ⟨op.looseness - 1, Nat.sub_le_of_le_add hle, ?_⟩
  rw [Nat.sub_add_cancel hpos]
  cases op
  all_goals exact ⟨_, by constructor, rfl, by decide⟩

/-- Two operands with an operator between them are a formula. -/
theorem exists_binary (op : BinaryOp) (left right : Unary) :
    ∃ s e, s.text = op.symbol ∧ s ≠ .dot ∧ Expr.tokens e = left.tokens ++ .sign s :: right.tokens ∧
      (e.ast : Ast α) = .binary op left.ast right.ast ⟨0, 0⟩ := by
  obtain ⟨k, hk, s, stands, hsymbol, hdot⟩ := exists_operatorAt op
  obtain ⟨l, hltokens, hlast⟩ := exists_operation (α := α) k left
  obtain ⟨r, hrtokens, hrast⟩ := exists_operation (α := α) k right
  obtain ⟨o, htokens, hast⟩ :=
    exists_raised (α := α) (Nat.succ_le_succ hk) (.level l (.more s op stands r .done))
  refine ⟨s, .plain o, hsymbol, hdot, ?_, ?_⟩
  · rw [Expr.tokens, htokens, Operation.tokens, Tail.tokens, Tail.tokens, List.append_nil, hltokens,
      hrtokens]
  · rw [Expr.ast, hast, Operation.ast, Tail.ast, Tail.ast, hlast, hrast]

/-- Members and indices can be followed by more of them. -/
theorem Suffixes.exists_append (more : Suffixes) : (first : Suffixes) →
    ∃ all : Suffixes, all.tokens = first.tokens ++ more.tokens ∧
      ∀ object : Ast α, all.ast object = more.ast (first.ast object)
  | .done => ⟨more, by rw [Suffixes.tokens, List.nil_append], fun object => by rw [Suffixes.ast]⟩
  | .member name rest => by
      obtain ⟨all, htokens, hast⟩ := Suffixes.exists_append more rest
      refine ⟨.member name all, ?_, fun object => ?_⟩
      · rw [Suffixes.tokens, Suffixes.tokens, htokens, List.cons_append, List.cons_append]
      · rw [Suffixes.ast, Suffixes.ast, hast]
  | .index i rest => by
      obtain ⟨all, htokens, hast⟩ := Suffixes.exists_append more rest
      refine ⟨.index i all, ?_, fun object => ?_⟩
      · rw [Suffixes.tokens, Suffixes.tokens, htokens, List.cons_append, List.append_assoc,
          List.cons_append]
      · rw [Suffixes.ast, Suffixes.ast, hast]
termination_by structural first => first

/-- Members and indices after a value are part of a longer value. -/
theorem Postfix.exists_append (value : Postfix) (more : Suffixes) :
    ∃ all : Postfix, all.tokens = value.tokens ++ more.tokens ∧
      (all.ast : Ast α) = more.ast value.ast := by
  obtain ⟨first, suffixes⟩ := value
  obtain ⟨all, htokens, hast⟩ := Suffixes.exists_append (α := α) more suffixes
  refine ⟨.value first all, ?_, ?_⟩
  · rw [Postfix.tokens, Postfix.tokens, htokens, List.append_assoc]
  · rw [Postfix.ast, Postfix.ast, hast]

end FormulaGrammar

/-! ### Numbers as text -/

theorem isDecimal_toDigits (n : Nat) : IsDecimal (Nat.toDigits 10 n) := by
  refine ⟨Nat.toDigits 10 n, [], Nat.toDigits_ne_nil, fun c hc => ?_, List.forall_mem_nil _,
    .inl rfl⟩
  exact Nat.isDigit_of_mem_toDigits (by decide) (by decide) hc

theorem toList_pushn (s : String) (c : Char) (n : Nat) :
    (s.pushn c n).toList = s.toList ++ List.replicate n c := by
  rw [String.pushn_eq_repeat_push]
  induction n with
  | zero => simp [Nat.repeat]
  | succ n ih => rw [Nat.repeat, String.toList_push, ih, List.append_assoc, ← List.replicate_succ']

/-- The plain text of a positive decimal has digits and at most a point. -/
theorem isDecimal_write_plain (decimal : Decimal) :
    IsDecimal (NumberLayout.plain.write decimal).toList := by
  let digits := decimal.digits.repr
  have hdigits : ∀ c ∈ digits.toList, c.isDigit := by
    intro c hc
    rw [Nat.toList_repr] at hc
    exact Nat.isDigit_of_mem_toDigits (by decide) (by decide) hc
  have hzeros : ∀ n, ∀ c ∈ List.replicate n '0', c.isDigit := by
    intro n c hc
    rw [List.eq_of_mem_replicate hc]
    rfl
  have hpositional : ∀ first, NumberLayout.plain.isPositional first = true := fun _ => rfl
  simp only [NumberLayout.write, hpositional, if_true, NumberLayout.positional]
  split
  · refine ⟨digits.toList ++ List.replicate decimal.exponent.toNat '0', [], ?_,
      List.forall_mem_append.mpr ⟨hdigits, hzeros _⟩, List.forall_mem_nil _, .inl ?_⟩
    · simp [digits, Nat.toList_repr]
    · simp [digits, toList_pushn, NumberLayout.plain]
  · split
    · next hplaces =>
      let count := digits.length - (-decimal.exponent).toNat
      refine ⟨digits.toList.take count, digits.toList.drop count, ?_,
        fun c hc => hdigits c (List.mem_of_mem_take hc),
        fun c hc => hdigits c (List.mem_of_mem_drop hc), .inr ?_⟩
      · have hpos : 0 < count := Nat.sub_pos_of_lt hplaces
        simp [digits, Nat.toList_repr, Nat.ne_of_gt hpos]
      · simp [digits, count]
    · next hplaces =>
      let zeros := List.replicate ((-decimal.exponent).toNat - digits.length) '0'
      refine ⟨['0'], zeros ++ digits.toList, List.cons_ne_nil _ _, by simp,
        List.forall_mem_append.mpr ⟨hzeros _, hdigits⟩, .inr ?_⟩
      simp [zeros, digits, toList_pushn]

/-- The text of a finite number without a sign is a decimal. -/
theorem isDecimal_valueText {x : Float} (hnan : x.isNaN = false) (hinf : x.isInf = false)
    (hsign : (Double.parts x).negative = false) (hwhole : 0 ≤ Number.toInt x) :
    IsDecimal (Number.valueText x).toList := by
  unfold Number.valueText
  split
  · rw [Int.toString_eq_repr, Int.repr_eq_if, if_pos hwhole, Nat.toList_repr]
    exact isDecimal_toDigits _
  · change IsDecimal (Double.write NumberLayout.plain x).toList
    simp only [Double.write, hnan, hinf, hsign, Bool.false_eq_true, if_false, String.empty_append]
    split
    · exact isDecimal_toDigits 0
    · exact isDecimal_write_plain _

namespace Ast

variable {α : Type}

/-! ### Formulas that are printed plainly -/

/-- Whether the formula is a sign before an operand. -/
def isSigned : Ast α → Bool
  | unary _ _ _ => true
  | _ => false

/-- Whether the formula is a number. -/
def isNumber : Ast α → Bool
  | literal (.int _) _ => true
  | literal (.scalar _) _ => true
  | _ => false

/-- The text after a formula does not go on with its last token. -/
def EndsBefore (ast : Ast α) (rest : List Char) : Prop :=
  Stops TokenReading.isWordChar rest ∧
    ('.' ∈ rest.head? → ast.isSigned = false ∧ ast.isNumber = false)

/-- A formula before a separator or a closing bracket has ended. -/
theorem endsBefore_mark (ast : Ast α) {c : Char} (hc : c ∈ [' ', ')', ']', '[', ','])
    (rest : List Char) : ast.EndsBefore (c :: rest) := by
  constructor
  · refine stops_cons ?_
    simp only [List.mem_cons, List.not_mem_nil, or_false] at hc
    rcases hc with rfl | rfl | rfl | rfl | rfl <;> rfl
  · intro hpoint
    obtain rfl : c = '.' := Option.some.inj hpoint
    exact absurd hc (by decide)

theorem endsBefore_close (ast : Ast α) {c : Char} (hc : c ∈ [')', ']']) (rest : List Char) :
    ast.EndsBefore (c :: rest) := by
  refine endsBefore_mark ast ?_ rest
  rcases List.mem_pair.mp hc with rfl | rfl <;> decide

variable [Number α]

/-- A node whose text has the parts of the node: no sign and no number runs into a member or an
index, a text is shown with escapes that are resolved again, and a number is shown as a decimal. -/
def IsNodePlain : Ast α → Prop
  | literal (.string s) _ => ∀ c ∈ s.toList, IsPlainChar c
  | literal (.scalar x) _ => IsDecimal (Number.valueText x).toList
  | member object _ _ => object.isSigned = false ∧ object.isNumber = false
  | index object _ _ => object.isSigned = false
  | _ => True

/-- A formula all of whose nodes are printed plainly. -/
def IsPlain (ast : Ast α) : Prop := ∀ t ∈ ast.subterms, t.IsNodePlain

/-- The value that the text of a literal says: a whole scalar is shown like an integer. -/
def rereadValue : Value α → Value α
  | .scalar x => FormulaParser.numberValue (Number.valueText x).toList
  | value => value

mutual

/-- The formula with every scalar as its text says it. -/
def reread : Ast α → Ast α
  | literal value range => .literal (rereadValue value) range
  | name n range => .name n range
  | list items range => .list (allReread items) range
  | unary op operand range => .unary op operand.reread range
  | binary op left right range => .binary op left.reread right.reread range
  | conditional condition then_ else_ range =>
      .conditional condition.reread then_.reread else_.reread range
  | call function arguments range => .call function (allReread arguments) range
  | member object m range => .member object.reread m range
  | index object i range => .index object.reread i.reread range
  | interpolation parts range => .interpolation (allReread parts) range

/-- The formulas with every scalar as its text says it. -/
def allReread : List (Ast α) → List (Ast α)
  | [] => []
  | ast :: rest => ast.reread :: allReread rest

end

attribute [local simp] reread allReread

/-! ### Literals as text -/

theorem text_literal {value : Value α} {range : ByteRange} (h : ∀ s, value ≠ .string s) :
    (literal value range).text = value.text := by
  rw [text]
  exact h

theorem toList_text_int {n : Int64} (h : 0 ≤ n.toInt) :
    (Value.int n : Value α).text.toList = Nat.toDigits 10 n.toInt.toNat := by
  rw [Value.text, Int.toString_eq_repr, Int.repr_eq_if, if_pos h, Nat.toList_repr]

/-- The digits of an integer are read as that integer. -/
theorem numberValue_toDigits {n : Int64} (h : 0 ≤ n.toInt) :
    FormulaParser.numberValue (Nat.toDigits 10 n.toInt.toNat) = (Value.int n : Value α) := by
  have hdigits : (Nat.toDigits 10 n.toInt.toNat).all Char.isDigit = true :=
    List.all_eq_true.mpr fun c hc => Nat.isDigit_of_mem_toDigits (by decide) (by decide) hc
  have hvalue : digitsValue 0 (Nat.toDigits 10 n.toInt.toNat) = n.toInt.toNat :=
    Nat.ofDigitChars_toDigits (by decide) (by decide)
  have hn : ((n.toInt.toNat : Nat) : Int) = n.toInt := Int.toNat_of_nonneg h
  have hfits : Number.fitsInt n.toInt = true :=
    decide_eq_true ⟨n.le_toInt, Int.le_of_lt_add_one n.toInt_lt⟩
  rw [FormulaParser.numberValue, hvalue, hdigits, hn, hfits, Bool.and_self, if_pos rfl,
    Int64.ofInt_toInt]

/-! ### One printed node -/

/-- A derivation of the tokens that a printed formula has: it stands for the formula, and it is a
value unless a sign stands before the formula. -/
structure IsShownBy (ast : Ast α) (d : Unary) : Prop where
  ast_eq : d.ast = ast.reread.withoutRanges
  isValue : ast.isSigned = false → ∃ value, d = .value value
  starts : ∀ rest, Stops (· == '=') (ast.text.toList ++ rest)
  scans : ∀ {rest : List Char} {these : List FormulaToken}, ast.EndsBefore rest →
    ScansTo rest these → ScansTo (ast.text.toList ++ rest) (d.tokens ++ these)

/-- Several formulas with commas between them, up to a closing bracket. -/
structure AreShownBy (asts : List (Ast α)) (d : Sequence) : Prop where
  asts_eq : d.asts = allWithoutRanges (allReread asts)
  scans : ∀ {c : Char} {rest : List Char} {these : List FormulaToken}, c ∈ [')', ']'] →
    ScansTo (c :: rest) these →
    ScansTo ((", ".intercalate (texts asts)).toList ++ c :: rest) (d.tokens ++ these)

/-- A value of one token or in brackets is shown by its own derivation. -/
theorem isShownBy_primary {ast : Ast α} (d : Primary) (hast : d.ast = ast.reread.withoutRanges)
    (hstarts : ∀ rest, Stops (· == '=') (ast.text.toList ++ rest))
    (hscans : ∀ {rest : List Char} {these : List FormulaToken}, ast.EndsBefore rest →
      ScansTo rest these → ScansTo (ast.text.toList ++ rest) (d.tokens ++ these)) :
    ast.IsShownBy (.value (.value d .done)) where
  ast_eq := by rw [Unary.ast, Postfix.ast, Suffixes.ast, hast]
  isValue _ := ⟨_, rfl⟩
  starts := hstarts
  scans := by
    intro rest these hends hrest
    rw [Unary.tokens, Postfix.tokens, Suffixes.tokens, List.append_nil]
    exact hscans hends hrest

theorem isShownBy_name {n : String} {range : ByteRange} (hn : IsName n) :
    (name n range : Ast α).IsShownBy (.value (.value (.name n) .done)) := by
  refine isShownBy_primary _ (by rw [Primary.ast, reread, withoutRanges]) ?_ ?_
  · intro rest
    rw [text]
    exact hn.1.stops_equals rest
  · intro rest these hends hrest
    rw [text, Primary.tokens]
    exact scansTo_name hn hends.1 hrest

/-- A number that is shown as a decimal is read as the value of that decimal. -/
theorem isShownBy_number {value : Value α} {range : ByteRange}
    (hnumber : (literal value range).isNumber) {written : List Char}
    (htext : (literal value range).text.toList = written) (hwritten : IsDecimal written)
    (hvalue : FormulaParser.numberValue written = rereadValue value) :
    (literal value range).IsShownBy (.value (.value (.number written) .done)) := by
  refine isShownBy_primary _ ?_ ?_ ?_
  · rw [Primary.ast, hvalue, reread, withoutRanges]
  · intro rest
    rw [htext]
    exact hwritten.stops_equals rest
  · intro rest these hends hrest
    have hrestEnds : EndsDecimal rest := by
      refine ⟨hends.1, fun c hc hpoint => ?_⟩
      subst hpoint
      rw [(hends.2 hc).2] at hnumber
      cases hnumber
    rw [htext, Primary.tokens]
    exact scansTo_decimal hwritten hrestEnds hrest

theorem isShownBy_string {s : String} {range : ByteRange} (hs : ∀ c ∈ s.toList, IsPlainChar c) :
    (literal (.string s) range : Ast α).IsShownBy
      (.value (.value (.text (quotedBody s.toList)) .done)) := by
  have htext : ∀ rest, (literal (.string s) range : Ast α).text.toList ++ rest =
      '"' :: (quotedBody s.toList ++ '"' :: rest) := by
    intro rest
    simp [text, quoted]
  refine isShownBy_primary _ ?_ ?_ ?_
  · rw [Primary.ast, unescape_quotedBody hs, String.ofList_toList, reread, withoutRanges]
    rfl
  · intro rest
    rw [htext]
    exact stops_cons rfl
  · intro rest these _ hrest
    rw [htext, Primary.tokens]
    exact scansTo_quoted hs hrest

theorem isShownBy_bool {b : Bool} {range : ByteRange} :
    (literal (.bool b) range : Ast α).IsShownBy (.value (.value (.truth b) .done)) := by
  let word := if b then ['t', 'r', 'u', 'e'] else ['f', 'a', 'l', 's', 'e']
  have hvalue : (literal (.bool b) range : Ast α).text = (Value.bool b : Value α).text :=
    text_literal nofun
  have htext : (literal (.bool b) range : Ast α).text.toList = word := by
    rw [hvalue, Value.text]
    cases b <;> rfl
  have hword : IsWord word ∧ TokenReading.ofWord word = .truth b := by
    cases b <;> exact ⟨⟨rfl, List.all_eq_true.mp rfl⟩, rfl⟩
  refine isShownBy_primary _ (by rw [Primary.ast, reread, withoutRanges]; rfl) ?_ ?_
  · intro rest
    rw [htext]
    exact hword.1.stops_equals rest
  · intro rest these hends hrest
    rw [htext, Primary.tokens, ← hword.2]
    exact scansTo_word hword.1 hends.1 hrest

theorem exists_isShownBy_literal {value : Value α} {range : ByteRange}
    (hread : (literal value range).IsNodeRead) (hplain : (literal value range).IsNodePlain) :
    ∃ d, (literal value range).IsShownBy d := by
  cases value with
  | scalar x =>
      have htext : (literal (.scalar x) range).text = Number.valueText x := text_literal nofun
      exact ⟨_, isShownBy_number rfl (congrArg String.toList htext) hplain rfl⟩
  | int n =>
      have htext : (literal (.int n) range : Ast α).text = (Value.int n : Value α).text :=
        text_literal nofun
      have hdigits := (congrArg String.toList htext).trans (toList_text_int hread)
      exact ⟨_, isShownBy_number rfl hdigits (isDecimal_toDigits _) (numberValue_toDigits hread)⟩
  | bool b => exact ⟨_, isShownBy_bool⟩
  | string s => exact ⟨_, isShownBy_string hplain⟩
  | _ => exact hread.elim

theorem isShownBy_unary {op : UnaryOp} {operand : Ast α} {range : ByteRange} {d : Unary}
    (h : operand.IsShownBy d) : (unary op operand range).IsShownBy (.signed op d) where
  ast_eq := by rw [Unary.ast, h.ast_eq, reread, withoutRanges]
  isValue hsigned := absurd hsigned (by simp [isSigned])
  starts := by
    intro rest
    rw [text, String.toList_append, List.append_assoc]
    cases op <;> exact stops_cons rfl
  scans := by
    intro rest these hends hrest
    have hinner : operand.EndsBefore rest :=
      ⟨hends.1, fun hpoint => absurd (hends.2 hpoint).1 (by simp [isSigned])⟩
    have hsign : (signOf op).text = op.symbol ∧ signOf op ≠ .dot := by
      cases op <;> exact ⟨rfl, by decide⟩
    rw [text, String.toList_append, List.append_assoc, Unary.tokens, List.cons_append, ← hsign.1]
    exact scansTo_sign hsign.2 (h.starts rest) (h.scans hinner hrest)

theorem exists_isShownBy_binary {op : BinaryOp} {left right : Ast α} {range : ByteRange}
    {l r : Unary} (hleft : left.IsShownBy l) (hright : right.IsShownBy r) :
    ∃ d, (binary op left right range).IsShownBy d := by
  obtain ⟨s, e, hsymbol, hdot, htokens, hast⟩ := exists_binary (α := α) op l r
  have htext : ∀ rest, (binary op left right range).text.toList ++ rest =
      '(' :: (left.text.toList ++ ' ' :: (s.text.toList ++ ' ' ::
        (right.text.toList ++ ')' :: rest))) := by
    intro rest
    simp [text, hsymbol]
  refine ⟨_, isShownBy_primary (.group e) ?_ ?_ ?_⟩
  · rw [Primary.ast, hast, hleft.ast_eq, hright.ast_eq, reread, withoutRanges]
  · intro rest
    rw [htext]
    exact stops_cons rfl
  · intro rest these _ hrest
    have hclose := scansTo_mark (c := ')') (by decide) rfl hrest
    have hlast := hright.scans (endsBefore_mark right (by decide) rest) hclose
    have hop := scansTo_sign hdot (stops_cons rfl) (scansTo_space hlast)
    have hfirst := hleft.scans (endsBefore_mark left (by decide) _) (scansTo_space hop)
    rw [htext, Primary.tokens, htokens]
    simp only [List.cons_append, List.append_assoc, List.nil_append]
    exact scansTo_mark (by decide) rfl hfirst

theorem exists_isShownBy_conditional {condition then_ else_ : Ast α} {range : ByteRange}
    {c t e : Unary} (hcondition : condition.IsShownBy c) (hthen : then_.IsShownBy t)
    (helse : else_.IsShownBy e) :
    ∃ d, (conditional condition then_ else_ range).IsShownBy d := by
  obtain ⟨o, hoTokens, hoAst⟩ := exists_operation (α := α) 6 c
  obtain ⟨first, hfirstTokens, hfirstAst⟩ := exists_expr (α := α) t
  obtain ⟨second, hsecondTokens, hsecondAst⟩ := exists_expr (α := α) e
  have htext : ∀ rest, (conditional condition then_ else_ range).text.toList ++ rest =
      '(' :: (condition.text.toList ++ ' ' :: '?' :: ' ' :: (then_.text.toList ++
        ' ' :: ':' :: ' ' :: (else_.text.toList ++ ')' :: rest))) := by
    intro rest
    simp [text]
  refine ⟨_, isShownBy_primary (.group (.conditional o first second)) ?_ ?_ ?_⟩
  · rw [Primary.ast, Expr.ast, hoAst, hfirstAst, hsecondAst, hcondition.ast_eq, hthen.ast_eq,
      helse.ast_eq, reread, withoutRanges]
  · intro rest
    rw [htext]
    exact stops_cons rfl
  · intro rest these _ hrest
    have hclose := scansTo_mark (c := ')') (by decide) rfl hrest
    have hsecond := helse.scans (endsBefore_mark else_ (by decide) rest) hclose
    have hcolon := scansTo_mark (c := ':') (by decide) rfl (scansTo_space hsecond)
    have hfirst := hthen.scans (endsBefore_mark then_ (by decide) _) (scansTo_space hcolon)
    have hquestion := scansTo_mark (c := '?') (by decide) rfl (scansTo_space hfirst)
    have hcond := hcondition.scans (endsBefore_mark condition (by decide) _)
      (scansTo_space hquestion)
    rw [htext, Primary.tokens, Expr.tokens, hoTokens, hfirstTokens, hsecondTokens]
    simp only [List.cons_append, List.append_assoc, List.nil_append]
    exact scansTo_mark (by decide) rfl hcond

theorem areShownBy_nil : AreShownBy ([] : List (Ast α)) .none where
  asts_eq := by rw [Sequence.asts, allReread, allWithoutRanges]
  scans := by
    intro c rest these _ hrest
    rw [texts, Sequence.tokens]
    exact hrest

/-- A formula is shown before others that are shown, with a comma between unless there are none. -/
theorem exists_areShownBy_cons {ast : Ast α} {asts : List (Ast α)} {d : Unary} {s : Sequence}
    (hfirst : ast.IsShownBy d) (hmore : AreShownBy asts s) : ∃ s', AreShownBy (ast :: asts) s' := by
  obtain ⟨e, htokens, hast⟩ := exists_expr (α := α) d
  rw [hfirst.ast_eq] at hast
  have hasts := hmore.asts_eq
  cases asts with
  | nil =>
      refine ⟨.some (.last e), ?_, ?_⟩
      · rw [Sequence.asts, Items.asts, hast, allReread, allReread, allWithoutRanges,
          allWithoutRanges]
      · intro c rest these hc hrest
        rw [texts, texts, String.intercalate_singleton, Sequence.tokens, Items.tokens, htokens]
        exact hfirst.scans (endsBefore_close ast hc rest) hrest
  | cons next asts =>
      cases s with
      | none =>
          rw [Sequence.asts, allReread, allWithoutRanges] at hasts
          cases hasts
      | some items =>
          rw [Sequence.asts] at hasts
          refine ⟨.some (.more e items), ?_, ?_⟩
          · simp only [Sequence.asts, Items.asts, hast, hasts, allReread, allWithoutRanges]
          · intro c rest these hc hrest
            have htext : (", ".intercalate (texts (ast :: next :: asts))).toList ++ c :: rest =
                ast.text.toList ++ ',' :: ' ' ::
                  ((", ".intercalate (texts (next :: asts))).toList ++ c :: rest) := by
              rw [texts, texts, String.intercalate_cons_cons]
              simp
            have hitems := hmore.scans hc hrest
            rw [Sequence.tokens] at hitems
            have hcomma := scansTo_mark (c := ',') (by decide) rfl (scansTo_space hitems)
            rw [htext, Sequence.tokens, Items.tokens, htokens, List.append_assoc]
            exact hfirst.scans (endsBefore_mark ast (by decide) _) hcomma

theorem isShownBy_list {items : List (Ast α)} {range : ByteRange} {s : Sequence}
    (h : AreShownBy items s) : (list items range).IsShownBy (.value (.value (.list s) .done)) := by
  have htext : ∀ rest, (list items range).text.toList ++ rest =
      '[' :: ((", ".intercalate (texts items)).toList ++ ']' :: rest) := by
    intro rest
    simp [text]
  refine isShownBy_primary _ ?_ ?_ ?_
  · rw [Primary.ast, h.asts_eq, reread, withoutRanges]
  · intro rest
    rw [htext]
    exact stops_cons rfl
  · intro rest these _ hrest
    have hclose := scansTo_mark (c := ']') (by decide) rfl hrest
    rw [htext, Primary.tokens]
    simp only [List.cons_append, List.append_assoc, List.nil_append]
    exact scansTo_mark (by decide) rfl (h.scans (by decide) hclose)

theorem isShownBy_call {function : String} {arguments : List (Ast α)} {range : ByteRange}
    {s : Sequence} (hname : IsName function) (h : AreShownBy arguments s) :
    (call function arguments range).IsShownBy (.value (.value (.call function s) .done)) := by
  have htext : ∀ rest, (call function arguments range).text.toList ++ rest =
      function.toList ++ '(' :: ((", ".intercalate (texts arguments)).toList ++ ')' :: rest) := by
    intro rest
    simp [text]
  refine isShownBy_primary _ ?_ ?_ ?_
  · rw [Primary.ast, h.asts_eq, reread, withoutRanges]
  · intro rest
    rw [htext]
    exact hname.1.stops_equals _
  · intro rest these _ hrest
    have hclose := scansTo_mark (c := ')') (by decide) rfl hrest
    have hopen := scansTo_mark (c := '(') (by decide) rfl (h.scans (by decide) hclose)
    rw [htext, Primary.tokens]
    simp only [List.cons_append, List.append_assoc, List.nil_append]
    exact scansTo_name hname (stops_cons rfl) hopen

theorem exists_isShownBy_member {object : Ast α} {m : String} {range : ByteRange} {d : Unary}
    (hobject : object.IsShownBy d) (hm : IsName m)
    (hplain : object.isSigned = false ∧ object.isNumber = false) :
    ∃ d', (member object m range).IsShownBy d' := by
  obtain ⟨value, rfl⟩ := hobject.isValue hplain.1
  obtain ⟨all, htokens, hast⟩ := value.exists_append (α := α) (.member m .done)
  have hvalue := hobject.ast_eq
  rw [Unary.ast] at hvalue
  have htext : ∀ rest, (member object m range).text.toList ++ rest =
      object.text.toList ++ '.' :: (m.toList ++ rest) := by
    intro rest
    simp [text]
  refine ⟨.value all, ?_, fun _ => ⟨all, rfl⟩, ?_, ?_⟩
  · rw [Unary.ast, hast, Suffixes.ast, Suffixes.ast, hvalue, reread, withoutRanges]
  · intro rest
    rw [htext]
    exact hobject.starts _
  · intro rest these hends hrest
    have hdot := scansTo_dot (hm.1.stops_digit rest) (scansTo_name hm hends.1 hrest)
    have hbefore : object.EndsBefore ('.' :: (m.toList ++ rest)) :=
      ⟨stops_cons rfl, fun _ => hplain⟩
    have hscans := hobject.scans hbefore hdot
    rw [Unary.tokens] at hscans
    rw [htext, Unary.tokens, htokens, Suffixes.tokens, Suffixes.tokens, List.append_assoc]
    exact hscans

theorem exists_isShownBy_index {object i : Ast α} {range : ByteRange} {d d' : Unary}
    (hobject : object.IsShownBy d) (hi : i.IsShownBy d') (hplain : object.isSigned = false) :
    ∃ d'', (index object i range).IsShownBy d'' := by
  obtain ⟨value, rfl⟩ := hobject.isValue hplain
  obtain ⟨e, heTokens, heAst⟩ := exists_expr (α := α) d'
  obtain ⟨all, htokens, hast⟩ := value.exists_append (α := α) (.index e .done)
  have hvalue := hobject.ast_eq
  rw [Unary.ast] at hvalue
  have htext : ∀ rest, (index object i range).text.toList ++ rest =
      object.text.toList ++ '[' :: (i.text.toList ++ ']' :: rest) := by
    intro rest
    simp [text]
  refine ⟨.value all, ?_, fun _ => ⟨all, rfl⟩, ?_, ?_⟩
  · rw [Unary.ast, hast, Suffixes.ast, Suffixes.ast, hvalue, heAst, hi.ast_eq, reread,
      withoutRanges]
  · intro rest
    rw [htext]
    exact hobject.starts _
  · intro rest these _ hrest
    have hclose := scansTo_mark (c := ']') (by decide) rfl hrest
    have hinner := hi.scans (endsBefore_mark i (by decide) rest) hclose
    have hopen := scansTo_mark (c := '[') (by decide) rfl hinner
    have hscans := hobject.scans (endsBefore_mark object (by decide) _) hopen
    rw [Unary.tokens] at hscans
    rw [htext, Unary.tokens, htokens, Suffixes.tokens, Suffixes.tokens, heTokens]
    simp only [List.cons_append, List.append_assoc, List.nil_append]
    exact hscans

/-! ### Whole formulas -/

mutual

/-- The text of a formula has the tokens of a derivation of that formula. The induction is on the
formula; what may follow its text is left open, so that the text around it can be scanned on. -/
theorem exists_isShownBy : (ast : Ast α) → ast.IsRead → ast.IsPlain → ∃ d, ast.IsShownBy d
  | literal value range, hread, hplain =>
      exists_isShownBy_literal (hread _ (mem_subterms_self _)) (hplain _ (mem_subterms_self _))
  | name n range, hread, _ => ⟨_, isShownBy_name (hread _ (mem_subterms_self _))⟩
  | list items range, hread, hplain => by
      simp only [IsRead, IsPlain, subterms, List.forall_mem_cons] at hread hplain
      obtain ⟨s, hs⟩ := exists_areShownBy items hread.2 hplain.2
      exact ⟨_, isShownBy_list hs⟩
  | unary op operand range, hread, hplain => by
      simp only [IsRead, IsPlain, subterms, List.forall_mem_cons] at hread hplain
      obtain ⟨d, hd⟩ := exists_isShownBy operand hread.2 hplain.2
      exact ⟨_, isShownBy_unary hd⟩
  | binary op left right range, hread, hplain => by
      simp only [IsRead, IsPlain, subterms, List.forall_mem_cons, List.forall_mem_append]
        at hread hplain
      obtain ⟨l, hl⟩ := exists_isShownBy left hread.2.1 hplain.2.1
      obtain ⟨r, hr⟩ := exists_isShownBy right hread.2.2 hplain.2.2
      exact exists_isShownBy_binary hl hr
  | conditional condition then_ else_ range, hread, hplain => by
      simp only [IsRead, IsPlain, subterms, List.forall_mem_cons, List.forall_mem_append]
        at hread hplain
      obtain ⟨c, hc⟩ := exists_isShownBy condition hread.2.1 hplain.2.1
      obtain ⟨t, ht⟩ := exists_isShownBy then_ hread.2.2.1 hplain.2.2.1
      obtain ⟨e, he⟩ := exists_isShownBy else_ hread.2.2.2 hplain.2.2.2
      exact exists_isShownBy_conditional hc ht he
  | call function arguments range, hread, hplain => by
      simp only [IsRead, IsPlain, subterms, List.forall_mem_cons] at hread hplain
      obtain ⟨s, hs⟩ := exists_areShownBy arguments hread.2 hplain.2
      exact ⟨_, isShownBy_call hread.1 hs⟩
  | member object m range, hread, hplain => by
      simp only [IsRead, IsPlain, subterms, List.forall_mem_cons] at hread hplain
      obtain ⟨d, hd⟩ := exists_isShownBy object hread.2 hplain.2
      exact exists_isShownBy_member hd hread.1 hplain.1
  | index object i range, hread, hplain => by
      simp only [IsRead, IsPlain, subterms, List.forall_mem_cons, List.forall_mem_append]
        at hread hplain
      obtain ⟨d, hd⟩ := exists_isShownBy object hread.2.1 hplain.2.1
      obtain ⟨d', hd'⟩ := exists_isShownBy i hread.2.2 hplain.2.2
      exact exists_isShownBy_index hd hd' hplain.1
  | interpolation parts range, hread, _ => (hread _ (mem_subterms_self _)).elim

theorem exists_areShownBy : (asts : List (Ast α)) → (∀ t ∈ subtermsOfAll asts, t.IsNodeRead) →
    (∀ t ∈ subtermsOfAll asts, t.IsNodePlain) → ∃ s, AreShownBy asts s
  | [], _, _ => ⟨_, areShownBy_nil⟩
  | ast :: rest, hread, hplain => by
      simp only [subtermsOfAll, List.forall_mem_append] at hread hplain
      obtain ⟨d, hd⟩ := exists_isShownBy ast hread.1 hplain.1
      obtain ⟨s, hs⟩ := exists_areShownBy rest hread.2 hplain.2
      exact exists_areShownBy_cons hd hs

end

/-- A text that has the tokens of a formula is read as that formula. -/
theorem read_of_scansTo {chars : List Char} {d : Unary} (h : ScansTo chars d.tokens)
    (offset : Nat) :
    ∃ ast : Ast α, Ast.read ⟨offset, chars⟩ = .ok ast ∧ ast.withoutRanges = d.ast := by
  obtain ⟨tokens, hscan, hkinds⟩ := h.tokens_eq offset
  obtain ⟨e, htokens, hast⟩ := exists_expr (α := α) d
  obtain ⟨ast, hwhole, hsame⟩ := FormulaParser.whole_complete (α := α)
    (Fragment.mk offset chars).stop (htokens.trans hkinds.symm)
  refine ⟨ast, ?_, hsame.trans hast⟩
  rw [Ast.read, Fragment.tokens, hscan]
  exact hwhole

/-- The text of a formula that is printed plainly is read as that formula with every scalar as its
text says it. -/
theorem exists_read_text {ast : Ast α} (hread : ast.IsRead) (hplain : ast.IsPlain)
    (offset : Nat) :
    ∃ again : Ast α, Ast.read (.ofString ast.text offset) = .ok again ∧
      again.withoutRanges = ast.reread.withoutRanges := by
  obtain ⟨d, hd⟩ := exists_isShownBy ast hread hplain
  have hends : ast.EndsBefore [] := ⟨stops_nil _, nofun⟩
  have hscans := hd.scans hends scansTo_nil
  rw [List.append_nil, List.append_nil] at hscans
  obtain ⟨again, hagain, hsame⟩ := read_of_scansTo (α := α) hscans offset
  exact ⟨again, hagain, hsame.trans hd.ast_eq⟩

/-- Printing what was read and reading it again gives the same formula, its ranges aside and every
scalar as its text says it, if the formula is printed plainly. If the text of every scalar says
that scalar, both formulas have the same value in every scope. -/
theorem read_text {source : Fragment} {ast : Ast α} (hread : Ast.read source = .ok ast)
    (hplain : ast.IsPlain) (offset : Nat) :
    ∃ again : Ast α, Ast.read (.ofString ast.text offset) = .ok again ∧
      again.withoutRanges = ast.reread.withoutRanges ∧
      (ast.reread = ast → ∀ s : Scope α, again.evaluate s = ast.evaluate s) := by
  obtain ⟨again, hagain, hsame⟩ := exists_read_text (isRead_of_read hread) hplain offset
  refine ⟨again, hagain, hsame, fun hself s => ?_⟩
  rw [hself] at hsame
  exact evaluate_of_withoutRanges_eq hsame s

/-- An item of a list under a sign, plus one, is printed plainly: only the operator between operands
gets parentheses. -/
theorem read_text_sum :
    ∃ ast again : Ast Float, Ast.read (.ofString "-x[0] + 1" 0) = .ok ast ∧ ast.IsPlain ∧
      Ast.read (.ofString "(-x[0] + 1)" 0) = .ok again ∧
      again.withoutRanges = ast.withoutRanges ∧
      ∀ s : Scope Float, again.evaluate s = ast.evaluate s := by
  let item : Ast Float := .index (.name "x" ⟨1, 2⟩) (.literal (.int 0) ⟨3, 4⟩) ⟨1, 5⟩
  let ast : Ast Float :=
    .binary .add (.unary .negate item ⟨0, 5⟩) (.literal (.int 1) ⟨8, 9⟩) ⟨0, 9⟩
  have hread : Ast.read (.ofString "-x[0] + 1" 0) = .ok ast := by cbv
  have hplain : ast.IsPlain := by
    simp [ast, item, IsPlain, IsNodePlain, subterms, isSigned]
  have hself : ast.reread = ast := by
    simp only [ast, item, reread, rereadValue]
  have htext : ast.text = "(-x[0] + 1)" := by cbv
  obtain ⟨again, hagain, hsame, hevaluate⟩ := read_text hread hplain 0
  rw [htext] at hagain
  rw [hself] at hsame
  exact ⟨ast, again, hread, hplain, hagain, hsame, hevaluate hself⟩

/-! ### Signed objects -/

/-- An item of a signed object and the sign of an item have one text. -/
theorem text_index_unary (op : UnaryOp) (object i : Ast α) (inner outer : ByteRange) :
    (index (unary op object inner) i outer).text =
      (unary op (index object i inner) outer).text := by
  simp only [text, String.append_assoc]

/-- A signed object with an index is not printed back: its text is read as the sign of an item. -/
theorem read_text_index_unary {source : Fragment} {op : UnaryOp} {object i : Ast α}
    {inner outer : ByteRange}
    (hread : Ast.read source = .ok (index (unary op object inner) i outer))
    (hplain : (index object i inner).IsPlain) (offset : Nat) :
    ∃ again : Ast α,
      Ast.read (.ofString (index (unary op object inner) i outer).text offset) = .ok again ∧
      again.withoutRanges ≠ (index (unary op object inner) i outer).withoutRanges := by
  have hparts := isRead_of_read hread
  simp only [IsRead, subterms, List.forall_mem_cons, List.forall_mem_append] at hparts
  obtain ⟨-, ⟨-, hobject⟩, hi⟩ := hparts
  have hsigned : (unary op (index object i inner) outer).IsRead := by
    simp only [IsRead, subterms, List.forall_mem_cons, List.forall_mem_append]
    exact ⟨trivial, trivial, hobject, hi⟩
  have hsignedPlain : (unary op (index object i inner) outer).IsPlain :=
    List.forall_mem_cons.mpr ⟨trivial, hplain⟩
  obtain ⟨again, hagain, hsame⟩ := exists_read_text hsigned hsignedPlain offset
  refine ⟨again, ?_, ?_⟩
  · rw [text_index_unary]
    exact hagain
  · rw [hsame, reread, withoutRanges, withoutRanges]
    intro h
    cases h

/-- A list of one integer. -/
def listScope : Scope Float :=
  ⟨[{ bindings := [("x", .ofValue (.list [.int 1]))], functions := [] }]⟩

/-- The text of a signed object with an index is read as another formula, which has a value where
the formula has none. -/
theorem text_signed_object :
    ∃ ast again : Ast Float, Ast.read (.ofString "(-x)[0]" 0) = .ok ast ∧ ast.text = "-x[0]" ∧
      Ast.read (.ofString ast.text 0) = .ok again ∧ again.withoutRanges ≠ ast.withoutRanges ∧
      again.evaluate listScope = .ok (.int (-1)) ∧ ∀ v, ast.evaluate listScope ≠ .ok v := by
  let ast : Ast Float :=
    .index (.unary .negate (.name "x" ⟨2, 3⟩) ⟨0, 4⟩) (.literal (.int 0) ⟨5, 6⟩) ⟨0, 7⟩
  let again : Ast Float :=
    .unary .negate (.index (.name "x" ⟨1, 2⟩) (.literal (.int 0) ⟨3, 4⟩) ⟨1, 5⟩) ⟨0, 5⟩
  refine ⟨ast, again, by cbv, by cbv, by cbv, ?_, by cbv, ?_⟩
  · rw [withoutRanges, withoutRanges]
    intro h
    cases h
  · intro v
    have hfails : (ast.evaluate listScope).toOption = none := by cbv
    intro h
    rw [h] at hfails
    cases hfails

/-- The point of a member after a whole number is scanned as a part of the number. -/
example : (member (literal (.int 1) ⟨1, 2⟩) "x" ⟨0, 5⟩ : Ast Float).text = "1.x" ∧
    scanFormula 0 "1.x".toList =
      .ok [⟨.number ['1', '.'], ⟨0, 2⟩⟩, ⟨.word "x", ⟨2, 3⟩⟩] :=
  ⟨by cbv, by cbv⟩

end Ast

end PatternMarkup
