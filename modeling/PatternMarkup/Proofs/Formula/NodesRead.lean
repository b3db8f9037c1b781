import PatternMarkup.Proofs.Formula.Scanning
import PatternMarkup.Proofs.Formula.Subterms
/-!
What reading gives, node by node. Whatever the tokens are, a formula that is read has names where
names are due, literals that tokens stand for, and no text with formulas in it.
-/

namespace PatternMarkup

open FormulaGrammar FormulaScan

namespace Ast

variable {α : Type}

/-! ### What reading gives -/

/-- A value that a token stands for: a number without a sign, a text or a truth value. -/
def IsTokenValue : Value α → Prop
  | .int n => 0 ≤ n.toInt
  | .scalar _ => True
  | .string _ => True
  | .bool _ => True
  | _ => False

/-- A node that reading makes: names are names, a literal is the value of a token, and no text has
formulas in it. -/
def IsNodeRead : Ast α → Prop
  | literal value _ => IsTokenValue value
  | name n _ => IsName n
  | call function _ _ => IsName function
  | member _ m _ => IsName m
  | interpolation _ _ => False
  | _ => True

/-- A formula all of whose nodes reading makes. -/
def IsRead (ast : Ast α) : Prop := ∀ t ∈ ast.subterms, t.IsNodeRead

theorem isRead_of_withoutRanges {ast : Ast α} (h : ast.withoutRanges.IsRead) : ast.IsRead := by
  intro t ht
  have hnode : t.withoutRanges.IsNodeRead := by
    apply h
    rw [subterms_withoutRanges]
    exact List.mem_map_of_mem ht
  cases t <;> rw [withoutRanges] at hnode <;> exact hnode

end Ast

namespace FormulaGrammar

/-- The words among the tokens are names. -/
def HasNames (tokens : List FormulaToken) : Prop := ∀ name, .word name ∈ tokens → IsName name

@[simp] theorem hasNames_append {front rest : List FormulaToken} :
    HasNames (front ++ rest) ↔ HasNames front ∧ HasNames rest := by
  simp only [HasNames, List.mem_append, or_imp, forall_and]

@[simp] theorem hasNames_word {name : String} {rest : List FormulaToken} :
    HasNames (.word name :: rest) ↔ IsName name ∧ HasNames rest := by
  simp [HasNames, or_imp, forall_and]

@[simp] theorem hasNames_sign {s : Sign} {rest : List FormulaToken} :
    HasNames (.sign s :: rest) ↔ HasNames rest := by
  simp [HasNames]

variable {α : Type} [Number α]

theorem isTokenValue_numberValue (written : List Char) :
    Ast.IsTokenValue (FormulaParser.numberValue written : Value α) := by
  unfold FormulaParser.numberValue
  simp only
  split
  · next h =>
      obtain ⟨-, hfits⟩ := Bool.and_eq_true_iff.mp h
      obtain ⟨hleast, hgreatest⟩ := of_decide_eq_true hfits
      change 0 ≤ (Int64.ofInt (digitsValue 0 written)).toInt
      rw [Int64.toInt_ofInt_of_le hleast (Int.lt_of_le_of_lt hgreatest (by decide))]
      exact Int.natCast_nonneg _
  · trivial

mutual

/-- A derivation from names stands for a formula that reading gives. The induction is on the
derivation; operators, members and indices are added to a formula that is such a one already. -/
theorem Expr.isRead : (d : Expr) → HasNames d.tokens → (d.ast : Ast α).IsRead
  | .plain operation, h => by
      rw [Expr.tokens] at h
      rw [Expr.ast]
      exact Operation.isRead operation h
  | .conditional condition then_ else_, h => by
      simp only [Expr.tokens, hasNames_append, hasNames_sign] at h
      rw [Expr.ast]
      simp only [Ast.IsRead, Ast.subterms, List.forall_mem_cons, List.forall_mem_append]
      exact ⟨trivial, Operation.isRead condition h.1, Expr.isRead then_ h.2.1,
        Expr.isRead else_ h.2.2⟩
termination_by structural d => d

theorem Operation.isRead : {k : Nat} → (d : Operation k) → HasNames d.tokens →
    (d.ast : Ast α).IsRead
  | _, .operand operand, h => by
      rw [Operation.tokens] at h
      rw [Operation.ast]
      exact Unary.isRead operand h
  | _, .level first rest, h => by
      rw [Operation.tokens, hasNames_append] at h
      rw [Operation.ast]
      exact Tail.isRead rest h.2 (Operation.isRead first h.1)
termination_by structural _ d => d

theorem Tail.isRead : {k : Nat} → (d : Tail k) → HasNames d.tokens → {left : Ast α} →
    left.IsRead → (d.ast left).IsRead
  | _, .done, _, left, hleft => by
      rw [Tail.ast]
      exact hleft
  | _, .more sign op stands right rest, h, left, hleft => by
      simp only [Tail.tokens, hasNames_append, hasNames_sign] at h
      rw [Tail.ast]
      apply Tail.isRead rest h.2
      simp only [Ast.IsRead, Ast.subterms, List.forall_mem_cons, List.forall_mem_append]
      exact ⟨trivial, hleft, Operation.isRead right h.1⟩
termination_by structural _ d => d

theorem Unary.isRead : (d : Unary) → HasNames d.tokens → (d.ast : Ast α).IsRead
  | .signed op operand, h => by
      rw [Unary.tokens, hasNames_sign] at h
      rw [Unary.ast]
      exact List.forall_mem_cons.mpr ⟨trivial, Unary.isRead operand h⟩
  | .value value, h => by
      rw [Unary.tokens] at h
      rw [Unary.ast]
      exact Postfix.isRead value h
termination_by structural d => d

theorem Postfix.isRead : (d : Postfix) → HasNames d.tokens → (d.ast : Ast α).IsRead
  | .value first rest, h => by
      rw [Postfix.tokens, hasNames_append] at h
      rw [Postfix.ast]
      exact Suffixes.isRead rest h.2 (Primary.isRead first h.1)
termination_by structural d => d

theorem Suffixes.isRead : (d : Suffixes) → HasNames d.tokens → {object : Ast α} →
    object.IsRead → (d.ast object).IsRead
  | .done, _, object, hobject => by
      rw [Suffixes.ast]
      exact hobject
  | .member name rest, h, object, hobject => by
      simp only [Suffixes.tokens, hasNames_sign, hasNames_word] at h
      rw [Suffixes.ast]
      exact Suffixes.isRead rest h.2 (List.forall_mem_cons.mpr ⟨h.1, hobject⟩)
  | .index index rest, h, object, hobject => by
      simp only [Suffixes.tokens, hasNames_append, hasNames_sign] at h
      rw [Suffixes.ast]
      apply Suffixes.isRead rest h.2
      simp only [Ast.IsRead, Ast.subterms, List.forall_mem_cons, List.forall_mem_append]
      exact ⟨trivial, hobject, Expr.isRead index h.1⟩
termination_by structural d => d

theorem Primary.isRead : (d : Primary) → HasNames d.tokens → (d.ast : Ast α).IsRead
  | .number written, _ => by
      rw [Primary.ast]
      exact List.forall_mem_singleton.mpr (isTokenValue_numberValue written)
  | .text written, _ => by
      rw [Primary.ast]
      exact List.forall_mem_singleton.mpr trivial
  | .truth b, _ => by
      rw [Primary.ast]
      exact List.forall_mem_singleton.mpr trivial
  | .name name, h => by
      rw [Primary.tokens, hasNames_word] at h
      rw [Primary.ast]
      exact List.forall_mem_singleton.mpr h.1
  | .call function arguments, h => by
      simp only [Primary.tokens, hasNames_append, hasNames_word, hasNames_sign] at h
      rw [Primary.ast]
      exact List.forall_mem_cons.mpr ⟨h.1, Sequence.areRead arguments h.2.1⟩
  | .group inner, h => by
      simp only [Primary.tokens, hasNames_append, hasNames_sign] at h
      rw [Primary.ast]
      exact Expr.isRead inner h.1
  | .list items, h => by
      simp only [Primary.tokens, hasNames_append, hasNames_sign] at h
      rw [Primary.ast]
      exact List.forall_mem_cons.mpr ⟨trivial, Sequence.areRead items h.1⟩
termination_by structural d => d

theorem Sequence.areRead : (d : Sequence) → HasNames d.tokens →
    ∀ t ∈ Ast.subtermsOfAll (d.asts : List (Ast α)), t.IsNodeRead
  | .none, _ => by
      rw [Sequence.asts]
      exact List.forall_mem_nil _
  | .some items, h => by
      rw [Sequence.tokens] at h
      rw [Sequence.asts]
      exact Items.areRead items h
termination_by structural d => d

theorem Items.areRead : (d : Items) → HasNames d.tokens →
    ∀ t ∈ Ast.subtermsOfAll (d.asts : List (Ast α)), t.IsNodeRead
  | .last item, h => by
      rw [Items.tokens] at h
      rw [Items.asts]
      exact List.forall_mem_append.mpr ⟨Expr.isRead item h, List.forall_mem_nil _⟩
  | .more item rest, h => by
      simp only [Items.tokens, hasNames_append, hasNames_sign] at h
      rw [Items.asts]
      exact List.forall_mem_append.mpr ⟨Expr.isRead item h.1, Items.areRead rest h.2⟩
termination_by structural d => d

end

end FormulaGrammar

/-- A formula that is read from a text is one that reading gives. -/
theorem Ast.isRead_of_read {α : Type} [Number α] {text : Fragment} {ast : Ast α}
    (h : Ast.read text = .ok ast) : ast.IsRead := by
  obtain ⟨tokens, htokens, hwhole⟩ := FormulaParser.exists_of_bind_eq_ok h
  obtain ⟨d, hd, hast⟩ := FormulaParser.whole_sound hwhole
  have hnames : HasNames d.tokens := by
    intro name hname
    rw [hd] at hname
    exact isName_of_scan htokens hname
  apply isRead_of_withoutRanges
  rw [← hast]
  exact d.isRead hnames

end PatternMarkup
