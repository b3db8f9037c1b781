import PatternMarkup.Proofs.Formula.NamesRead
/-!
Formulas that are folded. Folding them again changes nothing, and every name that is left in them
stands for something that only a scope knows.
-/

namespace PatternMarkup.Ast

variable {α : Type} [Number α] {hidden : String → Bool}

/-! ### Folding twice -/

theorem foldWith_of_isLiteral {ast : Ast α} (h : ast.isLiteral = true) :
    ast.foldWith hidden = ast := by
  cases ast with
  | literal value range => rw [foldWith]
  | _ => cases h

/-- An operation on literals folds again to what it has folded to, if the formula itself does. -/
theorem foldWith_foldOnLiterals {operands : List (Ast α)} {otherwise : Ast α}
    {operation : List (Value α) → Except EvalError (Value α)}
    (h : otherwise.foldWith hidden = foldOnLiterals operands operation otherwise) :
    (foldOnLiterals operands operation otherwise).foldWith hidden =
      foldOnLiterals operands operation otherwise := by
  unfold foldOnLiterals at h ⊢
  split
  · next values hvalues =>
      rw [hvalues] at h
      simp only at h
      cases hresult : operation values with
      | ok v => rw [literalOr, foldWith]
      | error e =>
          rw [hresult] at h
          exact h
  · next hnone =>
      rw [hnone] at h
      exact h

theorem foldWith_literalOr {result : Except EvalError (Value α)} {otherwise : Ast α}
    (h : otherwise.foldWith hidden = literalOr result otherwise) :
    (literalOr result otherwise).foldWith hidden = literalOr result otherwise := by
  cases result with
  | ok v => rw [literalOr, foldWith]
  | error e => exact h

mutual

/-- Folding a folded formula changes nothing. The induction is on the formula; a node that stays
finds the same operands the second time, and the same reason to stay. -/
theorem foldWith_foldWith : (ast : Ast α) →
    (ast.foldWith hidden).foldWith hidden = ast.foldWith hidden
  | literal value range => by rw [foldWith, foldWith]
  | name n range => by
      cases hname : (if hidden n then none else Builtin.constant? n : Option (Value α)) with
      | none => simp only [foldWith, hname]
      | some v => simp only [foldWith, hname]
  | list items range => by
      have hitems := foldAll_foldAll items
      rw [foldWith]
      exact foldWith_foldOnLiterals (by rw [foldWith, hitems])
  | unary op operand range => by
      have hoperand := foldWith_foldWith operand
      rw [foldWith]
      cases hliteral : (operand.foldWith hidden).literal? with
      | none => simp only [foldWith, hoperand, hliteral]
      | some v => exact foldWith_literalOr (by simp only [foldWith, hoperand, hliteral])
  | binary op left right range => by
      have hleft := foldWith_foldWith left
      have hright := foldWith_foldWith right
      rw [foldWith]
      cases hv : (left.foldWith hidden).literal? with
      | none => simp only [foldWith, hleft, hright, hv]
      | some v =>
          cases hw : (right.foldWith hidden).literal? with
          | none => simp only [foldWith, hleft, hright, hv, hw]
          | some w => exact foldWith_literalOr (by simp only [foldWith, hleft, hright, hv, hw])
  | conditional condition then_ else_ range => by
      have hagain : (conditional (condition.foldWith hidden) (then_.foldWith hidden)
            (else_.foldWith hidden) range).foldWith hidden =
          foldConditional (condition.foldWith hidden) (then_.foldWith hidden)
            (else_.foldWith hidden) range := by
        rw [foldWith, foldWith_foldWith condition, foldWith_foldWith then_, foldWith_foldWith else_]
      rw [foldWith]
      unfold foldConditional at hagain ⊢
      split
      · next c _ hthen helse =>
          cases c
          · exact foldWith_of_isLiteral helse
          · exact foldWith_of_isLiteral hthen
      · next hnot =>
          simp only at hagain
          exact hagain
  | call function arguments range => by
      have harguments := foldAll_foldAll arguments
      rw [foldWith]
      by_cases hfunction : hidden function = true
      · simp only [if_pos hfunction, foldWith, harguments]
      · simp only [if_neg hfunction]
        exact foldWith_foldOnLiterals (by simp only [foldWith, harguments, if_neg hfunction])
  | member object m range => by
      have hobject := foldWith_foldWith object
      rw [foldWith]
      cases hliteral : (object.foldWith hidden).literal? with
      | none => simp only [foldWith, hobject, hliteral]
      | some v => exact foldWith_literalOr (by simp only [foldWith, hobject, hliteral])
  | index object i range => by
      have hobject := foldWith_foldWith object
      have hi := foldWith_foldWith i
      rw [foldWith]
      cases hv : (object.foldWith hidden).literal? with
      | none => simp only [foldWith, hobject, hi, hv]
      | some v =>
          cases hw : (i.foldWith hidden).literal? with
          | none => simp only [foldWith, hobject, hi, hv, hw]
          | some w => exact foldWith_literalOr (by simp only [foldWith, hobject, hi, hv, hw])
  | interpolation parts range => by
      have hparts := foldAll_foldAll parts
      rw [foldWith]
      exact foldWith_foldOnLiterals (by rw [foldWith, hparts])

theorem foldAll_foldAll : (asts : List (Ast α)) →
    foldAll hidden (foldAll hidden asts) = foldAll hidden asts
  | [] => rfl
  | ast :: rest => by
      rw [foldAll, foldAll, foldWith_foldWith ast, foldAll_foldAll rest]

end

/-! ### The names that are left -/

/-- Every name the formula reads has the property. -/
def ReadsOnly (P : String → Prop) (ast : Ast α) : Prop := ∀ n ∈ ast.freeNames, P n

section ReadsOnly

variable {P : String → Prop}

omit [Number α] in
theorem readsOnly_literal (v : Value α) (range : ByteRange) : (literal v range).ReadsOnly P := by
  intro n hn
  obtain ⟨_, hname⟩ := mem_freeNames.mp hn
  simp [subterms] at hname

omit [Number α] in
/-- A formula other than a name reads what the formulas right inside it read. -/
theorem readsOnly_of_children {ast : Ast α} (hname : ∀ n range, ast ≠ name n range)
    (h : ∀ child ∈ ast.children, child.ReadsOnly P) : ast.ReadsOnly P := by
  intro n hn
  obtain ⟨range, hmem⟩ := mem_freeNames.mp hn
  rw [subterms_eq, List.mem_cons] at hmem
  rcases hmem with hself | hmem
  · exact absurd hself.symm (hname n range)
  · obtain ⟨child, hchild, hmem⟩ := mem_subtermsOfAll.mp hmem
    exact h child hchild n (mem_freeNames.mpr ⟨range, hmem⟩)

omit [Number α] in
theorem readsOnly_literalOr {result : Except EvalError (Value α)} {otherwise : Ast α}
    (h : otherwise.ReadsOnly P) : (literalOr result otherwise).ReadsOnly P := by
  cases result with
  | ok v => exact readsOnly_literal v _
  | error e => exact h

omit [Number α] in
theorem readsOnly_foldOnLiterals {operands : List (Ast α)} {otherwise : Ast α}
    {operation : List (Value α) → Except EvalError (Value α)} (h : otherwise.ReadsOnly P) :
    (foldOnLiterals operands operation otherwise).ReadsOnly P := by
  unfold foldOnLiterals
  split
  · exact readsOnly_literalOr h
  · exact h

theorem readsOnly_foldAll {asts : List (Ast α)}
    (h : ∀ ast ∈ asts, (ast.foldWith hidden).ReadsOnly P) :
    ∀ folded ∈ foldAll hidden asts, folded.ReadsOnly P := by
  induction asts with
  | nil => exact List.forall_mem_nil _
  | cons ast rest ih =>
      obtain ⟨hast, hrest⟩ := List.forall_mem_cons.mp h
      exact List.forall_mem_cons.mpr ⟨hast, ih hrest⟩

/-- Folding leaves no name but those that were there and are hidden or not what every formula
knows. The induction is on the formula: a node either becomes a literal, which reads nothing, or
stays with its parts folded. -/
theorem readsOnly_foldWith (ast : Ast α)
    (h : ∀ n ∈ ast.freeNames,
      hidden n = true ∨ (Builtin.constant? n : Option (Value α)) = none → P n) :
    (ast.foldWith hidden).ReadsOnly P := by
  induction ast using induction_on_children with
  | step ast ih =>
  have hparts : ∀ child ∈ ast.children, (child.foldWith hidden).ReadsOnly P := fun child hchild =>
    ih child hchild fun n hn => h n (mem_freeNames_of_mem_children hchild hn)
  cases ast with
  | literal value range =>
      rw [foldWith]
      exact readsOnly_literal value range
  | name n range =>
      rw [foldWith]
      cases hname : (if hidden n then none else Builtin.constant? n : Option (Value α)) with
      | some v => exact readsOnly_literal v range
      | none =>
          intro m hm
          have hkept := h m hm
          obtain ⟨_, hmem⟩ := mem_freeNames.mp hm
          obtain ⟨rfl, -⟩ : m = n ∧ _ := by simpa [subterms] using hmem
          by_cases hhidden : hidden m = true
          · exact hkept (.inl hhidden)
          · rw [if_neg hhidden] at hname
            exact hkept (.inr hname)
  | list items range =>
      rw [foldWith]
      exact readsOnly_foldOnLiterals (readsOnly_of_children (by simp) (readsOnly_foldAll hparts))
  | unary op operand range =>
      have hnode : (unary op (operand.foldWith hidden) range).ReadsOnly P :=
        readsOnly_of_children (by simp) (by simpa [children] using hparts)
      rw [foldWith]
      split
      · exact readsOnly_literalOr hnode
      · exact hnode
  | binary op left right range =>
      have hnode : (binary op (left.foldWith hidden) (right.foldWith hidden) range).ReadsOnly P :=
        readsOnly_of_children (by simp) (by simpa [children] using hparts)
      rw [foldWith]
      split
      · exact readsOnly_literalOr hnode
      · exact hnode
  | conditional condition then_ else_ range =>
      rw [foldWith]
      unfold foldConditional
      split
      · next c _ _ _ =>
          cases c
          · exact hparts else_ (by simp [children])
          · exact hparts then_ (by simp [children])
      · exact readsOnly_of_children (by simp) (by simpa [children] using hparts)
  | call function arguments range =>
      have hnode : (call function (foldAll hidden arguments) range).ReadsOnly P :=
        readsOnly_of_children (by simp) (readsOnly_foldAll hparts)
      rw [foldWith]
      split
      · exact hnode
      · exact readsOnly_foldOnLiterals hnode
  | member object m range =>
      have hnode : (member (object.foldWith hidden) m range).ReadsOnly P :=
        readsOnly_of_children (by simp) (by simpa [children] using hparts)
      rw [foldWith]
      split
      · exact readsOnly_literalOr hnode
      · exact hnode
  | index object i range =>
      have hnode : (index (object.foldWith hidden) (i.foldWith hidden) range).ReadsOnly P :=
        readsOnly_of_children (by simp) (by simpa [children] using hparts)
      rw [foldWith]
      split
      · exact readsOnly_literalOr hnode
      · exact hnode
  | interpolation parts range =>
      rw [foldWith]
      exact readsOnly_foldOnLiterals (readsOnly_of_children (by simp) (readsOnly_foldAll hparts))

end ReadsOnly

/-- No name in the formula is one that every formula knows, unless the name is hidden. -/
def IsOpen (hidden : String → Bool) (ast : Ast α) : Prop :=
  ∀ n ∈ ast.freeNames, hidden n = true ∨ (Builtin.constant? n : Option (Value α)) = none

/-- Folding leaves a name only if it is hidden or not one that every formula knows. -/
theorem isOpen_foldWith (ast : Ast α) : (ast.foldWith hidden).IsOpen hidden :=
  readsOnly_foldWith ast fun _ _ hopen => hopen

/-- Folding once is enough, and it invents no names. -/
theorem fold_once (s : Scope α) (ast : Ast α) :
    (ast.fold s).fold s = ast.fold s ∧ (ast.fold s).freeNames ⊆ ast.freeNames :=
  ⟨foldWith_foldWith ast, readsOnly_foldWith ast fun _ hn _ => hn⟩

end PatternMarkup.Ast
