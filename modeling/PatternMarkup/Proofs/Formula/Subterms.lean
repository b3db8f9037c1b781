import PatternMarkup.Proofs.Formula.Grammar
/-!
A formula and the formulas in it.
-/

namespace PatternMarkup

namespace Ast

variable {α : Type}

mutual

/-- A formula and all formulas in it. -/
def subterms : Ast α → List (Ast α)
  | literal value range => [.literal value range]
  | name n range => [.name n range]
  | list items range => .list items range :: subtermsOfAll items
  | unary op operand range => .unary op operand range :: operand.subterms
  | binary op left right range =>
      .binary op left right range :: (left.subterms ++ right.subterms)
  | conditional condition then_ else_ range =>
      .conditional condition then_ else_ range ::
        (condition.subterms ++ (then_.subterms ++ else_.subterms))
  | call function arguments range => .call function arguments range :: subtermsOfAll arguments
  | member object m range => .member object m range :: object.subterms
  | index object i range => .index object i range :: (object.subterms ++ i.subterms)
  | interpolation parts range => .interpolation parts range :: subtermsOfAll parts

/-- Several formulas and all formulas in them. -/
def subtermsOfAll : List (Ast α) → List (Ast α)
  | [] => []
  | ast :: rest => ast.subterms ++ subtermsOfAll rest

end

theorem mem_subterms_self (ast : Ast α) : ast ∈ ast.subterms := by
  cases ast <;> simp [subterms]

/-- The formulas right inside a formula, in the order they are written. -/
def children : Ast α → List (Ast α)
  | literal _ _ => []
  | name _ _ => []
  | list items _ => items
  | unary _ operand _ => [operand]
  | binary _ left right _ => [left, right]
  | conditional condition then_ else_ _ => [condition, then_, else_]
  | call _ arguments _ => arguments
  | member object _ _ => [object]
  | index object i _ => [object, i]
  | interpolation parts _ => parts

@[simp] theorem children_withRange (r : ByteRange) (ast : Ast α) :
    (ast.withRange r).children = ast.children := by
  cases ast <;> rfl

theorem subterms_eq (ast : Ast α) : ast.subterms = ast :: subtermsOfAll ast.children := by
  cases ast <;> simp [subterms, subtermsOfAll, children]

theorem mem_subtermsOfAll {t : Ast α} {asts : List (Ast α)} :
    t ∈ subtermsOfAll asts ↔ ∃ ast ∈ asts, t ∈ ast.subterms := by
  induction asts with
  | nil => simp [subtermsOfAll]
  | cons ast rest ih => simp [subtermsOfAll, ih]

theorem subterms_subset_of_mem_children {child ast : Ast α} (h : child ∈ ast.children) :
    child.subterms ⊆ ast.subterms := by
  intro t ht
  rw [subterms_eq ast]
  exact List.mem_cons_of_mem ast (mem_subtermsOfAll.mpr ⟨child, h, ht⟩)

section Induction

variable {motive : Ast α → Prop}

mutual

/-- What holds of a formula if it holds of the formulas right inside it holds of all formulas. -/
@[elab_as_elim]
theorem induction_on_children
    (step : ∀ ast : Ast α, (∀ child ∈ ast.children, motive child) → motive ast) :
    (ast : Ast α) → motive ast
  | literal value range => step _ (by simp [children])
  | name n range => step _ (by simp [children])
  | list items range => step _ (forall_mem_of_step step items)
  | unary op operand range =>
      step _ (List.forall_mem_singleton.mpr (induction_on_children step operand))
  | binary op left right range => by
      have hleft := induction_on_children step left
      have hright := induction_on_children step right
      exact step _ (by simp [children, hleft, hright])
  | conditional condition then_ else_ range => by
      have hcondition := induction_on_children step condition
      have hthen := induction_on_children step then_
      have helse := induction_on_children step else_
      exact step _ (by simp [children, hcondition, hthen, helse])
  | call function arguments range => step _ (forall_mem_of_step step arguments)
  | member object m range =>
      step _ (List.forall_mem_singleton.mpr (induction_on_children step object))
  | index object i range => by
      have hobject := induction_on_children step object
      have hi := induction_on_children step i
      exact step _ (by simp [children, hobject, hi])
  | interpolation parts range => step _ (forall_mem_of_step step parts)

theorem forall_mem_of_step
    (step : ∀ ast : Ast α, (∀ child ∈ ast.children, motive child) → motive ast) :
    (asts : List (Ast α)) → ∀ ast ∈ asts, motive ast
  | [] => by simp
  | ast :: rest =>
      List.forall_mem_cons.mpr ⟨induction_on_children step ast, forall_mem_of_step step rest⟩

end

/-- What every formula hands on to the formulas right inside it, it hands on to all in it. -/
theorem holds_of_mem_subterms
    (hdown : ∀ ast : Ast α, motive ast → ∀ child ∈ ast.children, motive child) {t : Ast α}
    (ast : Ast α) (h : motive ast) (ht : t ∈ ast.subterms) : motive t := by
  induction ast using induction_on_children with
  | step ast ih =>
      rw [subterms_eq, List.mem_cons] at ht
      rcases ht with rfl | ht
      · exact h
      · obtain ⟨child, hchild, ht⟩ := mem_subtermsOfAll.mp ht
        exact ih child hchild (hdown ast h child hchild) ht

end Induction

mutual

/-- Forgetting the ranges of a formula forgets those of the formulas in it. -/
theorem subterms_withoutRanges : (ast : Ast α) →
    ast.withoutRanges.subterms = ast.subterms.map withoutRanges
  | literal value range => rfl
  | name n range => rfl
  | list items range => by
      rw [subterms, List.map_cons, withoutRanges, subterms, subtermsOfAll_allWithoutRanges items]
  | unary op operand range => by
      rw [subterms, List.map_cons, withoutRanges, subterms, subterms_withoutRanges operand]
  | binary op left right range => by
      rw [subterms, List.map_cons, withoutRanges, subterms, List.map_append,
        subterms_withoutRanges left, subterms_withoutRanges right]
  | conditional condition then_ else_ range => by
      rw [subterms, List.map_cons, withoutRanges, subterms, List.map_append, List.map_append,
        subterms_withoutRanges condition, subterms_withoutRanges then_,
        subterms_withoutRanges else_]
  | call function arguments range => by
      rw [subterms, List.map_cons, withoutRanges, subterms,
        subtermsOfAll_allWithoutRanges arguments]
  | member object m range => by
      rw [subterms, List.map_cons, withoutRanges, subterms, subterms_withoutRanges object]
  | index object i range => by
      rw [subterms, List.map_cons, withoutRanges, subterms, List.map_append,
        subterms_withoutRanges object, subterms_withoutRanges i]
  | interpolation parts range => by
      rw [subterms, List.map_cons, withoutRanges, subterms, subtermsOfAll_allWithoutRanges parts]

theorem subtermsOfAll_allWithoutRanges : (asts : List (Ast α)) →
    subtermsOfAll (allWithoutRanges asts) = (subtermsOfAll asts).map withoutRanges
  | [] => rfl
  | ast :: rest => by
      rw [allWithoutRanges, subtermsOfAll, subtermsOfAll, List.map_append,
        subterms_withoutRanges ast, subtermsOfAll_allWithoutRanges rest]

end

end Ast

end PatternMarkup
