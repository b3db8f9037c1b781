import PatternMarkup.Proofs.Formula.ErrorSources
import PatternMarkup.Proofs.Formula.TypeSoundness
/-!
Which errors the check of a formula predicts. Whatever path evaluation takes, a name that is not
defined and a call with a wrong number of arguments have been reported by the check: it visits every
part of a formula, and resolves names and functions as evaluation does.
-/

namespace PatternMarkup

variable {α : Type} [Number α]

/-- What the check reports tells of the error, if that is one of an unknown name or of a number of
arguments. -/
def EvalError.IsReportedIn (errors : List TypeError) : EvalError → Prop
  | undefinedName n =>
      ∃ e ∈ errors, e.fault = .undefinedName n ∨ e.fault = .unknownFunction n
  | arity function expected found =>
      ∃ e ∈ errors, e.fault = .arity function expected found
  | _ => True

theorem EvalError.IsReportedIn.of_subset {errors more : List TypeError} (h : errors ⊆ more)
    {e : EvalError} (he : e.IsReportedIn errors) : e.IsReportedIn more := by
  cases e with
  | undefinedName n =>
      obtain ⟨fault, hmem, hfault⟩ := he
      exact ⟨fault, h hmem, hfault⟩
  | arity function expected found =>
      obtain ⟨fault, hmem, hfault⟩ := he
      exact ⟨fault, h hmem, hfault⟩
  | _ => trivial

theorem EvalError.IsOfValues.isReportedIn {e : EvalError} (h : e.IsOfValues)
    (errors : List TypeError) : e.IsReportedIn errors := by
  cases e with
  | undefinedName n => exact h.elim
  | arity function expected found => exact h.elim
  | _ => trivial

namespace Ast

variable {s : Scope α}

/-! ### The check of the parts -/

theorem errors_subset_checkAll {child : Ast α} {asts : List (Ast α)} (h : child ∈ asts) :
    (child.check s).errors ⊆ (checkAll s asts).2 := by
  induction asts with
  | nil => cases h
  | cons ast rest ih =>
      rw [checkAll_cons]
      rcases List.mem_cons.mp h with rfl | h
      · exact List.subset_append_left _ _
      · exact List.Subset.trans (ih h) (List.subset_append_right _ _)

/-- The check of a formula reports what it finds in the formulas right inside it. -/
theorem errors_subset_of_mem_children {child ast : Ast α} (h : child ∈ ast.children) :
    (child.check s).errors ⊆ (ast.check s).errors := by
  cases ast with
  | literal value range => cases h
  | name n range => cases h
  | list items range =>
      rw [check]
      exact errors_subset_checkAll h
  | unary op operand range =>
      obtain rfl := List.mem_singleton.mp h
      rw [check]
      cases op.resultType? (child.check s).type with
      | some type => exact List.Subset.refl _
      | none => exact List.subset_append_left _ _
  | binary op left right range =>
      have hparts : (child.check s).errors ⊆ (left.check s).errors ++ (right.check s).errors := by
        rcases List.mem_pair.mp h with rfl | rfl
        · exact List.subset_append_left _ _
        · exact List.subset_append_right _ _
      rw [check]
      cases op.resultType? (left.check s).type (right.check s).type with
      | some type => exact hparts
      | none => exact List.Subset.trans hparts (List.subset_append_left _ _)
  | conditional condition then_ else_ range =>
      rw [check]
      intro e he
      simp only [children, List.mem_cons, List.not_mem_nil, or_false] at h
      simp only [List.mem_append]
      rcases h with rfl | rfl | rfl
      · exact .inl (.inl (.inl he))
      · exact .inl (.inr he)
      · exact .inr he
  | call function arguments range =>
      rw [check]
      exact List.Subset.trans (errors_subset_checkAll h) (List.subset_append_left _ _)
  | member object m range =>
      obtain rfl := List.mem_singleton.mp h
      rw [check]
      cases (child.check s).type.member? m with
      | some type => exact List.Subset.refl _
      | none => exact List.subset_append_left _ _
  | index object i range =>
      rw [check]
      intro e he
      simp only [Checked.after, List.mem_append]
      rcases List.mem_pair.mp h with rfl | rfl
      · exact .inl (.inl (.inl he))
      · exact .inl (.inl (.inr he))
  | interpolation parts range =>
      rw [check]
      exact errors_subset_checkAll h

/-- The check of a formula reports what it finds in every formula in it. -/
theorem errors_subset_of_mem_subterms {t ast : Ast α} (h : t ∈ ast.subterms) :
    (t.check s).errors ⊆ (ast.check s).errors :=
  holds_of_mem_subterms
    (fun _ hpart _ hchild => List.Subset.trans (errors_subset_of_mem_children hchild) hpart) ast
    (List.Subset.refl _) h

end Ast

/-! ### Names and calls -/

omit [Number α] in
theorem name_of_functionIn {name : String} {frames : List (Frame α)} {host : HostFunction α}
    (h : functionIn name frames = some host) : host.name = name := by
  induction frames with
  | nil => cases h
  | cons frame outer ih =>
      rw [functionIn, Option.or_eq_some_iff] at h
      rcases h with h | ⟨-, h⟩
      · simpa using List.find?_some h
      · exact ih h

/-- Every name that stands for something stands for a value or has none yet, and no function makes
an error of an unknown name or of a number of arguments. -/
structure Scope.IsOrdinary (s : Scope α) : Prop where
  content : ∀ n b, s.lookup? n = some b →
    (∃ v, b.content = .bound (.constant v)) ∨ b.content = .declared
  call_ne_undefinedName : ∀ f host, s.function? f = some host → ∀ values n,
    host.call values ≠ .error (.undefinedName n)
  call_ne_arity : ∀ f host, s.function? f = some host → ∀ values g expected found,
    host.call values ≠ .error (.arity g expected found)

namespace Scope.IsOrdinary

variable {s : Scope α}

theorem isReportedIn_name (hs : s.IsOrdinary) {n : String} {range : ByteRange} {e : EvalError}
    (h : s.environment.read n = .error e) :
    e.IsReportedIn ((Ast.name n range).check s).errors := by
  cases hlookup : s.lookup? n with
  | some b =>
      rcases hs.content n b hlookup with ⟨v, hcontent⟩ | hcontent
      · rw [read_of_value hlookup (by rw [Binding.value?, hcontent])] at h
        cases h
      · rw [read_of_missing hlookup (by rw [Binding.value?, hcontent]), Binding.missing,
          Binding.failure?, hcontent] at h
        cases h
        trivial
  | none =>
      rw [read_of_unknown hlookup] at h
      cases hconstant : (Builtin.constant? n : Option (Value α)) with
      | some v =>
          rw [hconstant] at h
          cases h
      | none =>
          rw [hconstant] at h
          cases h
          have htype : s.typeOf? n = none := by rw [typeOf?, hlookup, Option.map_none]
          have herrors : ((Ast.name n range).check s).errors = [⟨.undefinedName n, range⟩] := by
            rw [Ast.check, Ast.checkName, htype]
            simp only [hconstant, Checked.fail]
          exact ⟨_, by rw [herrors]; exact List.mem_singleton_self _, .inl rfl⟩

theorem isReportedIn_call (hs : s.IsOrdinary) {function : String} {arguments : List (Ast α)}
    {range : ByteRange} {e : EvalError}
    (h : s.environment.CallFails function arguments.length e) :
    e.IsReportedIn ((Ast.call function arguments range).check s).errors := by
  let types := (Ast.checkAll s arguments).1
  have htypes : types.length = arguments.length := Ast.length_checkAll arguments
  have hsubset : (Ast.checkCall s function types range).errors ⊆
      ((Ast.call function arguments range).check s).errors := by
    rw [Ast.check]
    exact List.subset_append_right _ _
  refine EvalError.IsReportedIn.of_subset hsubset ?_
  unfold Ast.checkCall
  cases h with
  | unknown hfunction hname =>
      have hfunction : s.function? function = none := hfunction
      simp only [hfunction, hname]
      exact ⟨_, List.mem_singleton_self _, .inr rfl⟩
  | hostCount host hfunction hcount =>
      have hfunction : s.function? function = some host := hfunction
      have hcount : ¬ host.parameters.length = types.length := fun heq =>
        hcount (htypes.symm.trans heq.symm)
      simp only [hfunction, HostFunction.check, if_neg hcount]
      refine ⟨_, List.mem_singleton_self _, ?_⟩
      rw [name_of_functionIn hfunction, htypes]
  | count b hfunction hname hcount =>
      have hfunction : s.function? function = none := hfunction
      rw [← htypes] at hcount
      simp only [hfunction, hname, Builtin.check, hcount]
      refine ⟨_, List.mem_append_left _ (List.mem_singleton_self _), ?_⟩
      rw [htypes]
  | host host hfunction values _ h =>
      cases e with
      | undefinedName n =>
          exact absurd h (hs.call_ne_undefinedName function host hfunction values n)
      | arity g expected found =>
          exact absurd h (hs.call_ne_arity function host hfunction values g expected found)
      | _ => trivial

end Scope.IsOrdinary

/-- If evaluation meets a name that is not defined, or a call with a wrong number of arguments, the
check of the formula has reported it. -/
theorem Ast.evaluate_isReportedIn {s : Scope α} (hs : s.IsOrdinary) (ast : Ast α) :
    (∀ n, ast.evaluate s = .error (.undefinedName n) →
      ∃ e ∈ (ast.check s).errors, e.fault = .undefinedName n ∨ e.fault = .unknownFunction n) ∧
    ∀ f expected found, ast.evaluate s = .error (.arity f expected found) →
      ∃ e ∈ (ast.check s).errors, e.fault = .arity f expected found := by
  have hreported : FailsOnly (EvalError.IsReportedIn (ast.check s).errors) (ast.evaluate s) := by
    refine (failsOnly_evaluateWith ast).mono fun e he => ?_
    cases he with
    | name n range hmem h =>
        exact (hs.isReportedIn_name h).of_subset (errors_subset_of_mem_subterms hmem)
    | call function arguments range hmem h =>
        exact (hs.isReportedIn_call h).of_subset (errors_subset_of_mem_subterms hmem)
    | values h => exact h.isReportedIn _
  exact ⟨fun n h => hreported _ h, fun f expected found h => hreported _ h⟩

/-- One level: `x` has no value yet, `y` is 2, and `pair` makes a list of two values. -/
def pairScope : Scope Float :=
  ⟨[{ bindings := [("x", .declared .int), ("y", .ofValue (.int 2))]
      functions := [⟨"pair", [.any, .any], .list .any, fun values => .ok (.list values)⟩] }]⟩

theorem call_pairScope {f : String} {host : HostFunction Float}
    (h : pairScope.function? f = some host) (values : List (Value Float)) :
    host.call values = .ok (.list values) := by
  rw [Scope.function?, pairScope, functionIn, functionIn, Option.or_none] at h
  obtain rfl := List.mem_singleton.mp (List.mem_of_find?_eq_some h)
  rfl

theorem isOrdinary_pairScope : pairScope.IsOrdinary where
  content n b h := by
    obtain ⟨owner, hresolve⟩ := Scope.exists_owner_of_lookup? h
    simp only [pairScope, resolveIn] at hresolve
    split at hresolve
    · rename_i found hfound
      cases hresolve
      obtain ⟨bound, hbound, rfl⟩ := Option.map_eq_some_iff.mp hfound
      rcases List.mem_pair.mp (List.mem_of_find?_eq_some hbound) with rfl | rfl
      · exact .inr rfl
      · exact .inl ⟨_, rfl⟩
    · cases hresolve
  call_ne_undefinedName f host h values n := by
    rw [call_pairScope h]
    nofun
  call_ne_arity f host h values g expected found := by
    rw [call_pairScope h]
    nofun

/-- In `true ? pair(y) : x` a condition decides that `pair` is called, with one value; in `[y, z]`
there is no `z`. -/
theorem Ast.evaluate_isReportedIn_pair :
    let y : ByteRange → Ast Float := .name "y"
    let choice : Ast Float := .conditional (.literal (.bool true) ⟨0, 4⟩)
      (.call "pair" [y ⟨12, 13⟩] ⟨7, 14⟩) (.name "x" ⟨17, 18⟩) ⟨0, 18⟩
    let list : Ast Float := .list [y ⟨1, 2⟩, .name "z" ⟨4, 5⟩] ⟨0, 6⟩
    choice.evaluate pairScope = .error (.arity "pair" (.exactly 2) 1) ∧
      (∃ e ∈ (choice.check pairScope).errors, e.fault = .arity "pair" (.exactly 2) 1) ∧
      list.evaluate pairScope = .error (.undefinedName "z") ∧
      ∃ e ∈ (list.check pairScope).errors,
        e.fault = .undefinedName "z" ∨ e.fault = .unknownFunction "z" := by
  intro y choice list
  have hchoice : choice.evaluate pairScope = .error (.arity "pair" (.exactly 2) 1) := by
    simp only [choice, evaluate, evaluateWith]
    rfl
  have hy : pairScope.environment.read "y" = .ok (.int 2) :=
    Scope.read_of_value (b := .ofValue (.int 2)) rfl rfl
  have hz : pairScope.environment.read "z" = .error (.undefinedName "z") :=
    Scope.read_of_unknown rfl
  have hlist : list.evaluate pairScope = .error (.undefinedName "z") := by
    simp only [list, y, evaluate, evaluateWith, evaluateAll, hy, hz]
    rfl
  exact ⟨hchoice, (evaluate_isReportedIn isOrdinary_pairScope choice).2 _ _ _ hchoice,
    hlist, (evaluate_isReportedIn isOrdinary_pairScope list).1 _ hlist⟩

end PatternMarkup
