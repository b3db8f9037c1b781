import PatternMarkup.Proofs.Formula.NamesRead
import PatternMarkup.Proofs.Formula.FoldedForm
import PatternMarkup.Proofs.Pattern.BindingOutcomes
import PatternMarkup.Proofs.Pattern.DeclaredArguments
import PatternMarkup.Proofs.Pattern.VariableCycles
/-!
The scopes in which the tests of arguments are evaluated. What a test comes to for a value by
itself, it comes to among the values of all arguments.
-/

namespace PatternMarkup

variable {α : Type}

/-! ### What names stand for -/

namespace Scope

/-- Binding a name changes what it stands for, and no other. -/
theorem lookup?_bind (s : Scope α) (name : String) (b : Binding α) (n : String) :
    (s.bind name b).lookup? n = if name = n then some b else s.lookup? n := by
  obtain ⟨frames⟩ := s
  cases frames with
  | nil =>
      simp only [bind, mapInner, lookup?, resolveIn, Frame.binding?_bind]
      by_cases hn : name = n
      · simp [hn]
      · simp [hn, Frame.binding?]
  | cons frame outer =>
      simp only [bind, mapInner, lookup?, resolveIn, Frame.binding?_bind]
      by_cases hn : name = n
      · simp [hn]
      · simp only [hn, if_false]
        cases frame.binding? n <;> rfl

theorem lookup?_define (s : Scope α) (f : HostFunction α) (n : String) :
    (s.define f).lookup? n = s.lookup? n := by
  obtain ⟨frames⟩ := s
  cases frames with
  | nil => rfl
  | cons frame outer =>
      have hframe : (frame.define f).binding? n = frame.binding? n := rfl
      simp only [define, mapInner, lookup?, resolveIn, hframe]
      cases frame.binding? n <;> rfl

theorem lookup?_child (s : Scope α) (n : String) : s.child.lookup? n = s.lookup? n := rfl

theorem function?_bind (s : Scope α) (name : String) (b : Binding α) :
    (s.bind name b).function? = s.function? := by
  obtain ⟨frames⟩ := s
  cases frames with
  | nil => rfl
  | cons frame outer => rfl

theorem function?_child (s : Scope α) : s.child.function? = s.function? := by
  funext name
  rfl

/-- A name read after a run of declarations is declared, if every name before them was. -/
theorem content_foldl_declare (names : List (String × ValueType)) {s : Scope α}
    (hs : ∀ n b, s.lookup? n = some b → b.content = .declared) {n : String} {b : Binding α}
    (h : (names.foldl (fun s (name, type) => s.declare name type) s).lookup? n = some b) :
    b.content = .declared := by
  induction names generalizing s with
  | nil => exact hs n b h
  | cons first rest ih =>
      refine ih (s := s.declare first.1 first.2) (fun n b hb => ?_) h
      rw [declare, lookup?_bind] at hb
      split at hb
      · rw [← Option.some.inj hb]
        rfl
      · exact hs n b hb

end Scope

namespace Canvas

/-- The names of the canvas have no values while a document is bound. -/
theorem content_of_lookup? {n : String} {b : Binding α}
    (h : (declarations : Scope α).lookup? n = some b) : b.content = .declared := by
  rw [declarations, Scope.lookup?_define] at h
  refine Scope.content_foldl_declare reservedNames (fun n b hb => ?_) h
  cases hb

/-- The one function of the canvas does not have the name of a constant. -/
theorem constant?_of_function? [Number α] {n : String}
    (h : ((declarations : Scope α).function? n).isSome) :
    (Builtin.constant? n : Option (Value α)) = none := by
  obtain ⟨f, hf⟩ := Option.isSome_iff_exists.mp h
  change (([textWidth _].find? (·.name == n)).or none) = some f at hf
  rw [Option.or_none, List.find?_singleton] at hf
  split at hf
  · next hname =>
      rw [← beq_iff_eq.mp hname]
      rfl
  · cases hf

end Canvas

/-! ### The values of arguments -/

namespace ArgumentValues

variable [Number α] {outer : Scope α}

theorem lookup?_foldl_bind_of_notMem {values : List (String × BoundArgument α)} {n : String}
    (hn : n ∉ values.map (·.1)) (s : Scope α) :
    (values.foldl (fun s (var, b) => s.bind var (binding outer b)) s).lookup? n =
      s.lookup? n := by
  induction values generalizing s with
  | nil => rfl
  | cons first rest ih =>
      rw [List.map_cons, List.mem_cons, not_or] at hn
      rw [List.foldl_cons, ih hn.2, Scope.lookup?_bind, if_neg (Ne.symm hn.1)]

/-- A variable stands for what it holds. -/
theorem lookup?_scope {vs : ArgumentValues α} (hdistinct : (vs.values.map (·.1)).Nodup)
    {var : String} {b : BoundArgument α} (h : vs.get? var = some b) :
    (vs.scope outer).lookup? var = some (binding outer b) := by
  obtain ⟨before, after, hvalues⟩ := List.append_of_mem (Fields.mem_of_get? h)
  rw [hvalues, List.map_append, List.map_cons, List.nodup_append, List.nodup_cons] at hdistinct
  rw [scope, hvalues, List.foldl_append, List.foldl_cons,
    lookup?_foldl_bind_of_notMem hdistinct.2.1.1, Scope.lookup?_bind, if_pos rfl]

theorem function?_scope (vs : ArgumentValues α) (outer : Scope α) :
    (vs.scope outer).function? = outer.function? := by
  have hfold : ∀ s : Scope α, (vs.values.foldl
      (fun s (var, b) => s.bind var (binding outer b)) s).function? = s.function? := by
    induction vs.values with
    | nil => exact fun s => rfl
    | cons first rest ih => exact fun s => (ih _).trans (s.function?_bind _ _)
  exact (hfold outer.child).trans outer.function?_child

end ArgumentValues

/-! ### Tests -/

variable [Number α]

/-- Around a single variable only that variable has a value, besides names that every formula
knows. -/
theorem Canvas.eq_of_read {var n : String} {type : ValueType} {v w : Value α}
    (hread : ((declarations : Scope α).child.bind var
      ⟨type, .bound (.constant v)⟩).environment.read n = .ok w)
    (hopen : (testScope var type : Scope α).shadows n = true ∨
      (Builtin.constant? n : Option (Value α)) = none) : n = var ∧ w = v := by
  have hlookup : ∀ b : Binding α, ((declarations : Scope α).child.bind var b).lookup? n =
      if var = n then some b else (declarations : Scope α).lookup? n := fun b => by
    rw [Scope.lookup?_bind, Scope.lookup?_child]
  by_cases hname : var = n
  · have hvalue := Scope.read_of_value
      ((hlookup ⟨type, .bound (.constant v)⟩).trans (if_pos hname)) rfl
    exact ⟨hname.symm, Except.ok.inj (hread.symm.trans hvalue)⟩
  have hother := fun b => (hlookup b).trans (if_neg hname)
  cases hcanvas : (declarations : Scope α).lookup? n with
  | some b =>
      have hvalue : b.value? = none := by rw [Binding.value?, content_of_lookup? hcanvas]
      rw [Scope.read_of_missing ((hother _).trans hcanvas) hvalue] at hread
      cases hread
  | none =>
      have hunknown : (Builtin.constant? n : Option (Value α)) = none := by
        rcases hopen with hshadows | hunknown
        · rw [testScope, Scope.shadows, Scope.contains, Scope.declare, hother, hcanvas,
            Scope.function?_bind, Scope.function?_child] at hshadows
          exact constant?_of_function? hshadows
        · exact hunknown
      rw [Scope.read_of_unknown ((hother _).trans hcanvas), hunknown] at hread
      cases hread

/-- What the test of an argument comes to for a constant by itself, it comes to wherever the
variable stands for that constant. The formula of the test is folded, so a variable of another
argument cannot take the place of a name that every formula knows. -/
theorem PlainArgument.evaluate_of_passes? {arg : PlainArgument α} (hread : arg.IsRead)
    {test : Expression α Bool} (htest : arg.test = some test)
    {s : Scope α} (hfunctions : s.function? = (Canvas.declarations : Scope α).function?)
    {v : Value α} (hvar : s.lookup? arg.var = some ⟨arg.bindingType, .bound (.constant v)⟩)
    {b : Bool} (h : arg.passes? (.constant v) Canvas.declarations = some b) :
    test.evaluate s = .ok b := by
  let own : Scope α := (Canvas.declarations : Scope α).child.bind arg.var
    ⟨arg.bindingType, .bound (.constant v)⟩
  have hown : test.evaluate own = .ok b := by
    rw [passes?, htest] at h
    cases hevaluate : test.evaluate own with
    | ok b' =>
        have hsome : (test.evaluate own).toOption = some b := h
        rw [hevaluate] at hsome
        exact congrArg Except.ok (Option.some.inj hsome)
    | error e =>
        have hsome : (test.evaluate own).toOption = some b := h
        rw [hevaluate] at hsome
        cases hsome
  cases test with
  | constant c => exact hown
  | formula f =>
      obtain ⟨x, hx, hb⟩ := FormulaParser.exists_of_bind_eq_ok hown
      have hopen : f.ast.IsOpen (testScope arg.var arg.bindingType : Scope α).shadows := by
        have hfolded : f.ast.fold _ = f.ast := hread.test _ htest f rfl
        rw [← hfolded]
        exact Ast.isOpen_foldWith f.ast
      have hdefined : f.ast.DefinedIn own.environment s.environment := by
        refine ⟨fun n hn w hw => ?_, fun name => ?_⟩
        · obtain ⟨rfl, rfl⟩ := Canvas.eq_of_read hw (hopen n hn)
          exact Scope.read_of_value hvar rfl
        · change own.function? name = s.function? name
          rw [hfunctions, Scope.function?_bind, Scope.function?_child]
      rw [Expression.evaluate, Ast.evaluate, Ast.evaluateWith_of_definedIn f.ast hdefined x hx]
      exact hb

end PatternMarkup
