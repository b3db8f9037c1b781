import PatternMarkup.Formula.Evaluate
import PatternMarkup.Number.Double
import PatternMarkup.Proofs.Formula.FunctionTyping
import PatternMarkup.Proofs.Formula.OperatorTyping
import PatternMarkup.Proofs.Formula.Subterms
/-!
What the check of a formula promises about its evaluation. If the check finds no fault and knows
every type, evaluation meets no operand or member of a wrong type, and the value is of the type the
check has found, as long as lists are of one type throughout and integers stay integers.
-/

namespace PatternMarkup

variable {α : Type} [Number α]

namespace Ast

-- The equations of the check are made here, once for the proofs below.
attribute [grind =] check checkAll

/-! ### Parts of formulas -/

/-- The values of a list are all of the type that is known of its first: those of a literal, those
of a list of formulas, and those of two lists that are joined. -/
def IsUniform (s : Scope α) : Ast α → Prop
  | literal value _ => value.type.Conforms value
  | list items _ =>
      ∀ first ∈ items.head?, ∀ item ∈ items.tail,
        (first.check s).type.accepts (item.check s).type = true
  | binary .add left right _ =>
      ∀ item more, (left.check s).type = .list item → (right.check s).type = .list more →
        item.accepts more = true
  | _ => True

/-- An operation on integers whose result does not fit 64 bits. -/
def Overflows (s : Scope α) : Ast α → Prop
  | unary .negate operand _ =>
      ∃ n, operand.evaluate s = .ok (.int n) ∧ Number.fitsInt (-n.toInt) = false
  | binary op left right _ =>
      ∃ m n, left.evaluate s = .ok (.int m) ∧ right.evaluate s = .ok (.int n) ∧
        op.overflows m.toInt n.toInt = true
  | _ => False

/-- The check finds no fault in a formula and knows the types of all its parts. -/
structure Passes (s : Scope α) (ast : Ast α) : Prop where
  errors_eq_nil : (ast.check s).errors = []
  known : ∀ t ∈ ast.subterms, (t.check s).type.mentionsAny = false

/-- A call of `len` or `int` on an argument whose type they do not take as a whole. -/
def Converts (s : Scope α) : Ast α → Prop
  | call function [argument] _ =>
      ∃ b, Builtin.ofName? function = some b ∧ b.isTotalOn (argument.check s).type = false
  | _ => False

end Ast

/-- There are no functions besides those every formula knows, and every name that stands for
something stands for a value of its type. -/
structure Scope.HoldsValues (s : Scope α) : Prop where
  function?_eq_none : ∀ n, s.function? n = none
  lookup? : ∀ n b, s.lookup? n = some b →
    ∃ v, b.content = .bound (.constant v) ∧ b.type.Conforms v

namespace Ast

/-- What is asked of every part of a formula: its type is known, its lists are of one type, and
what it may make of integers and conversions is allowed. -/
structure Tame (s : Scope α) (widened casts : Prop) (ast : Ast α) : Prop where
  known : (ast.check s).type.mentionsAny = false
  uniform : ast.IsUniform s
  overflow : ast.Overflows s → widened
  conversion : ast.Converts s → casts

/-- A formula has a type that is known, and evaluation keeps to it. -/
structure KeepsType (s : Scope α) (widened casts : Prop) (ast : Ast α) : Prop where
  known : (ast.check s).type.mentionsAny = false
  delivers : Delivers casts ((ast.check s).type.Admits widened) (ast.evaluate s)

variable {s : Scope α} {widened casts : Prop}

/-! ### Names and literals -/

theorem delivers_name {n : String} {range : ByteRange}
    (hlookup? : ∀ b, s.lookup? n = some b →
      ∃ v, b.content = .bound (.constant v) ∧ b.type.Conforms v)
    (herrors : ((name n range).check s).errors = []) :
    Delivers casts (((name n range).check s).type.Admits widened) ((name n range).evaluate s) := by
  have hread : (name n range).evaluate s = readName s.frames [] (formulaKeys s.frames) n := by
    rw [evaluate, evaluateWith]
    rfl
  rw [hread, readName]
  rw [check] at herrors ⊢
  unfold checkName at herrors ⊢
  cases hresolve : resolveIn n s.frames with
  | some found =>
      obtain ⟨b, owner⟩ := found
      have hlookup : s.lookup? n = some b := by simp [Scope.lookup?, hresolve]
      obtain ⟨v, hcontent, hv⟩ := hlookup? b hlookup
      simp only [Scope.typeOf?, hlookup, hcontent]
      exact hv.mono False.elim b.type
  | none =>
      have hlookup : s.lookup? n = none := by simp [Scope.lookup?, hresolve]
      simp only [Scope.typeOf?, hlookup, Option.map_none] at herrors ⊢
      cases hconstant : (Builtin.constant? n : Option (Value α)) with
      | some value =>
          obtain ⟨_, c, _, rfl⟩ : n ≠ "grey" ∧ ∃ c, Color.named? n = some c ∧ .color c = value := by
            simpa [Builtin.constant?] using hconstant
          exact ⟨c, rfl⟩
      | none => simp [hconstant, Checked.fail] at herrors

theorem expectType_eq_nil {expected found : ValueType} {range : ByteRange} :
    expectType expected found range = [] ↔ expected.accepts found = true := by
  simp [expectType]

/-! ### Several formulas -/

theorem checkAll_cons (ast : Ast α) (rest : List (Ast α)) :
    checkAll s (ast :: rest) =
      (((ast.check s).type, ast.range) :: (checkAll s rest).1,
        (ast.check s).errors ++ (checkAll s rest).2) := by
  rw [checkAll]

theorem types_checkAll (asts : List (Ast α)) :
    (checkAll s asts).1.map (·.1) = asts.map fun ast => (ast.check s).type := by
  induction asts with
  | nil => rw [checkAll]; rfl
  | cons ast rest ih => rw [checkAll_cons, List.map_cons, List.map_cons, ih]

theorem length_checkAll (asts : List (Ast α)) : (checkAll s asts).1.length = asts.length := by
  rw [← List.length_map (f := (·.1)), types_checkAll, List.length_map]

theorem delivers_evaluateAll {asts : List (Ast α)}
    (h : ∀ ast ∈ asts, KeepsType s widened casts ast) :
    Delivers casts (Builtin.AdmitsAll widened (asts.map fun ast => (ast.check s).type))
      (evaluateAll s.environment asts) := by
  induction asts with
  | nil =>
      rw [evaluateAll]
      exact .nil
  | cons ast rest ih =>
      rw [evaluateAll]
      refine (h ast List.mem_cons_self).delivers.bind fun v _ hv => ?_
      exact (ih fun t ht => h t (List.mem_cons_of_mem _ ht)).bind fun vs _ hvs => .cons hv hvs

theorem delivers_evaluateText {asts : List (Ast α)}
    (h : ∀ ast ∈ asts, KeepsType s widened casts ast) :
    Delivers casts (fun _ => True) (evaluateText s.environment asts) := by
  induction asts with
  | nil =>
      rw [evaluateText]
      trivial
  | cons ast rest ih =>
      rw [evaluateText]
      refine (h ast List.mem_cons_self).delivers.bind fun v _ _ => ?_
      exact (ih fun t ht => h t (List.mem_cons_of_mem _ ht)).bind fun _ _ _ => trivial

/-- Items whose types a type accepts belong to it. -/
theorem admits_of_uniform {type : ValueType} {items : List (Ast α)} {values : List (Value α)}
    (h : ∀ item ∈ items, KeepsType s widened casts item)
    (huniform : ∀ item ∈ items, type.accepts (item.check s).type = true)
    (hvalues : Builtin.AdmitsAll widened (items.map fun item => (item.check s).type) values) :
    ∀ v ∈ values, type.Admits widened v := by
  induction items generalizing values with
  | nil =>
      cases hvalues
      simp
  | cons item rest ih =>
      obtain _ | ⟨hfirst, hrest⟩ := hvalues
      intro v hv
      rcases List.mem_cons.mp hv with rfl | hv
      · exact ValueType.admits_of_accepts type (huniform item List.mem_cons_self)
          (h item List.mem_cons_self).known hfirst
      · exact ih (fun t ht => h t (List.mem_cons_of_mem _ ht))
          (fun t ht => huniform t (List.mem_cons_of_mem _ ht)) hrest v hv

theorem delivers_list {items : List (Ast α)} {range : ByteRange}
    (htame : (list items range).Tame s widened casts)
    (h : ∀ item ∈ items, KeepsType s widened casts item) :
    Delivers casts (((list items range).check s).type.Admits widened)
      ((list items range).evaluate s) := by
  rw [check, evaluate, evaluateWith]
  refine (delivers_evaluateAll h).bind fun values _ hvalues => ?_
  refine ⟨values, rfl, ?_⟩
  cases items with
  | nil =>
      cases hvalues
      simp
  | cons first rest =>
      rw [checkAll_cons]
      obtain _ | ⟨hfirst, hrest⟩ := hvalues
      intro v hv
      rcases List.mem_cons.mp hv with rfl | hv
      · exact hfirst
      · exact admits_of_uniform (fun t ht => h t (List.mem_cons_of_mem _ ht))
          (htame.uniform first rfl) hrest v hv

/-! ### Operators -/

theorem errors_of_unary {op : UnaryOp} {operand : Ast α} {range : ByteRange}
    (h : ((unary op operand range).check s).errors = []) : (operand.check s).errors = [] := by
  rw [check] at h
  cases hresult : op.resultType? (operand.check s).type with
  | none => simp [hresult, Checked.fail, Checked.after] at h
  | some result => simpa [hresult] using h

theorem errors_of_binary {op : BinaryOp} {left right : Ast α} {range : ByteRange}
    (h : ((binary op left right range).check s).errors = []) :
    (left.check s).errors = [] ∧ (right.check s).errors = [] := by
  rw [check] at h
  cases hresult : op.resultType? (left.check s).type (right.check s).type with
  | none => simp [hresult, Checked.fail, Checked.after] at h
  | some result => simpa [hresult] using h

theorem delivers_unary {op : UnaryOp} {operand : Ast α} {range : ByteRange}
    (htame : (unary op operand range).Tame s widened casts)
    (herrors : ((unary op operand range).check s).errors = [])
    (h : KeepsType s widened casts operand) :
    Delivers casts (((unary op operand range).check s).type.Admits widened)
      ((unary op operand range).evaluate s) := by
  rw [check] at herrors ⊢
  rw [evaluate, evaluateWith]
  cases hresult : op.resultType? (operand.check s).type with
  | none => simp [hresult, Checked.fail, Checked.after] at herrors
  | some result =>
      refine h.delivers.bind fun v hv hadmits => ?_
      have hfit : ∀ n, op = .negate → v = .int n → Number.fitsInt (-n.toInt) = false →
          widened := by
        rintro n rfl rfl hn
        exact htame.overflow ⟨n, hv, hn⟩
      obtain ⟨w, hw, hresult⟩ := UnaryOp.admits_apply hresult h.known hadmits hfit
      rw [hw]
      exact hresult

theorem delivers_binary {op : BinaryOp} {left right : Ast α} {range : ByteRange}
    (htame : (binary op left right range).Tame s widened casts)
    (herrors : ((binary op left right range).check s).errors = [])
    (hleft : KeepsType s widened casts left) (hright : KeepsType s widened casts right) :
    Delivers casts (((binary op left right range).check s).type.Admits widened)
      ((binary op left right range).evaluate s) := by
  rw [check] at herrors ⊢
  rw [evaluate, evaluateWith]
  cases hresult : op.resultType? (left.check s).type (right.check s).type with
  | none => simp [hresult, Checked.fail, Checked.after] at herrors
  | some result =>
      simp only
      refine hleft.delivers.bind fun v hv hadmits => ?_
      split
      · rename_i w hshortcut
        exact BinaryOp.admits_of_shortcut? hshortcut hresult
      · refine hright.delivers.bind fun w hw hadmits' => ?_
        have hoverflow : ∀ m n, v = .int m → w = .int n → op.overflows m.toInt n.toInt = true →
            widened := by
          rintro m n rfl rfl hover
          exact htame.overflow ⟨m, n, hv, hw, hover⟩
        have hchecked : BinaryOp.Checked widened op _ _ v w :=
          ⟨hleft.known, hright.known, hadmits, hadmits', hoverflow⟩
        refine hchecked.delivers_apply hresult ?_
        rintro item more rfl
        exact htame.uniform item more

/-! ### Conditions -/

/-- Of two formulas, the one a condition takes. -/
theorem delivers_choice {condition then_ else_ : Ast α}
    (hbool : ValueType.bool.accepts (condition.check s).type = true)
    (hcondition : KeepsType s widened casts condition) (hthen : KeepsType s widened casts then_)
    (helse : KeepsType s widened casts else_) :
    Delivers casts (((then_.check s).type.unify (else_.check s).type).Admits widened) (do
      let v ← condition.evaluate s
      if ← v.asCondition then then_.evaluate s else else_.evaluate s) := by
  refine hcondition.delivers.bind fun v _ hv => ?_
  obtain ⟨b, rfl⟩ := ValueType.admits_of_accepts .bool hbool hcondition.known hv
  cases b with
  | true =>
      refine Delivers.mono (fun w => ?_) hthen.delivers
      exact ValueType.admits_unify_left hthen.known
  | false =>
      refine Delivers.mono (fun w => ?_) helse.delivers
      exact ValueType.admits_unify_right helse.known

/-! ### Members, indices and calls -/

theorem errors_of_member {object : Ast α} {m : String} {range : ByteRange}
    (h : ((member object m range).check s).errors = []) : (object.check s).errors = [] := by
  rw [check] at h
  cases hmember : (object.check s).type.member? m with
  | none => simp [hmember, Checked.fail, Checked.after] at h
  | some type => simpa [hmember] using h

theorem delivers_member {object : Ast α} {m : String} {range : ByteRange}
    (herrors : ((member object m range).check s).errors = [])
    (h : KeepsType s widened casts object) :
    Delivers casts (((member object m range).check s).type.Admits widened)
      ((member object m range).evaluate s) := by
  rw [check] at herrors ⊢
  rw [evaluate, evaluateWith]
  cases hmember : (object.check s).type.member? m with
  | none => simp [hmember, Checked.fail, Checked.after] at herrors
  | some type =>
      refine h.delivers.bind fun v _ hv => ?_
      obtain ⟨w, hw, hadmits⟩ := Value.admits_member hmember h.known hv
      rw [hw]
      exact hadmits

theorem errors_of_index {object i : Ast α} {range : ByteRange}
    (h : ((index object i range).check s).errors = []) :
    (object.check s).errors = [] ∧ (i.check s).errors = [] := by
  rw [check] at h
  simp only [Checked.after, List.append_eq_nil_iff] at h
  exact h.1.1

theorem delivers_index {object i : Ast α} {range : ByteRange}
    (herrors : ((index object i range).check s).errors = [])
    (hwidened : widened → casts) (hobject : KeepsType s widened casts object)
    (hi : KeepsType s widened casts i) :
    Delivers casts (((index object i range).check s).type.Admits widened)
      ((index object i range).evaluate s) := by
  rw [check] at herrors ⊢
  simp only [Checked.after, List.append_eq_nil_iff, expectType_eq_nil] at herrors ⊢
  obtain ⟨⟨_, hint⟩, hcheck⟩ := herrors
  rw [evaluate, evaluateWith]
  refine hobject.delivers.bind fun v _ hv => ?_
  refine hi.delivers.bind fun w _ hw => ?_
  have hw := ValueType.admits_of_accepts .int hint hi.known hw
  cases htype : (object.check s).type with
  | list item =>
      rw [htype] at hv
      exact Value.delivers_item hv hw hwidened
  | any =>
      have hknown := hobject.known
      rw [htype] at hknown
      cases hknown
  | _ =>
      rw [htype] at hcheck
      cases hcheck

theorem errors_of_call {function : String} {arguments : List (Ast α)} {range : ByteRange}
    (h : ((call function arguments range).check s).errors = []) :
    (checkAll s arguments).2 = [] := by
  rw [check] at h
  exact (List.append_eq_nil_iff.mp h).1

/-- Of two arguments, the one that `if` takes. -/
theorem delivers_evaluateChoice {arguments : List (Ast α)}
    (hcount : Builtin.choose.arity.accepts arguments.length = true)
    (hparameters : expectTypes ((List.range arguments.length).map Builtin.choose.parameterType)
      (checkAll s arguments).1 = [])
    (h : ∀ argument ∈ arguments, KeepsType s widened casts argument) :
    Delivers casts
      ((Builtin.choose.returnType (arguments.map fun ast => (ast.check s).type)).Admits widened)
      (evaluateChoice s.environment arguments) := by
  obtain ⟨condition, then_, else_, rfl⟩ : ∃ c a b, arguments = [c, a, b] :=
    by
    have ⟨hleast, hgreatest⟩ := Bool.and_eq_true_iff.mp hcount
    have hlength := Nat.le_antisymm (of_decide_eq_true hgreatest) (of_decide_eq_true hleast)
    exact List.length_eq_three.mp hlength
  have hbool : ValueType.bool.accepts (condition.check s).type = true := by
    rw [checkAll_cons] at hparameters
    exact expectType_eq_nil.mp (List.append_eq_nil_iff.mp hparameters).1
  rw [evaluateChoice]
  exact delivers_choice hbool (h condition (by simp)) (h then_ (by simp)) (h else_ (by simp))

theorem delivers_callBuiltin {function : String} {b : Builtin} {arguments : List (Ast α)}
    {range : ByteRange} (hwidened : widened → casts)
    (htame : (call function arguments range).Tame s widened casts)
    (hfunction : Builtin.ofName? function = some b) (hchoose : b ≠ .choose)
    (hcount : b.arity.accepts arguments.length = true)
    (hparameters : expectTypes ((List.range arguments.length).map b.parameterType)
      (checkAll s arguments).1 = [])
    (h : ∀ argument ∈ arguments, KeepsType s widened casts argument) :
    Delivers casts ((b.returnType (arguments.map fun ast => (ast.check s).type)).Admits widened)
      (evaluateAll s.environment arguments >>= b.call) := by
  refine (delivers_evaluateAll h).bind fun values _ hvalues => ?_
  have hlength : values.length = arguments.length := by simpa using hvalues.length_eq.symm
  rw [Builtin.call, hlength, if_pos hcount]
  refine Builtin.delivers_evaluate hchoose hvalues ?_ ?_ hwidened
  · rintro type rfl htypes
    obtain ⟨argument, rfl, rfl⟩ := List.map_eq_singleton_iff.mp htypes
    rw [checkAll_cons] at hparameters
    have hstring := (List.append_eq_nil_iff.mp hparameters).1
    exact ⟨expectType_eq_nil.mp hstring, (h argument List.mem_cons_self).known⟩
  · intro type htypes htotal
    obtain ⟨argument, rfl, rfl⟩ := List.map_eq_singleton_iff.mp htypes
    exact htame.conversion ⟨b, hfunction, htotal⟩

theorem delivers_call {function : String} {arguments : List (Ast α)} {range : ByteRange}
    (hs : s.HoldsValues) (hwidened : widened → casts)
    (htame : (call function arguments range).Tame s widened casts)
    (herrors : ((call function arguments range).check s).errors = [])
    (h : ∀ argument ∈ arguments, KeepsType s widened casts argument) :
    Delivers casts (((call function arguments range).check s).type.Admits widened)
      ((call function arguments range).evaluate s) := by
  rw [check] at herrors ⊢
  simp only [Checked.after, List.append_eq_nil_iff] at herrors ⊢
  obtain ⟨_, herrors⟩ := herrors
  have hhost : s.environment.function? function = none := hs.function?_eq_none function
  rw [evaluate, evaluateWith, hhost]
  rw [checkCall, hs.function?_eq_none] at herrors ⊢
  cases hb : Builtin.ofName? function with
  | none => simp [hb, Checked.fail] at herrors
  | some b =>
      simp only [hb, Builtin.check, List.append_eq_nil_iff, types_checkAll, length_checkAll]
        at herrors ⊢
      obtain ⟨hcount, hparameters⟩ := herrors
      have hcount : b.arity.accepts arguments.length = true := by simpa using hcount
      split
      · contradiction
      · rename_i heq
        obtain rfl := Option.some.inj heq
        exact delivers_evaluateChoice hcount hparameters h
      · rename_i other hchoose heq
        obtain rfl := Option.some.inj heq
        exact delivers_callBuiltin hwidened htame hb hchoose hcount hparameters h

/-! ### Whole formulas -/

mutual

/-- If every part of a formula is tame and the check finds no fault, evaluation keeps to the type
the check has found. -/
theorem keepsType (hs : s.HoldsValues) (hwidened : widened → casts) (ast : Ast α)
    (htame : ∀ t ∈ ast.subterms, t.Tame s widened casts) (herrors : (ast.check s).errors = []) :
    KeepsType s widened casts ast := by
  have hself := htame ast ast.mem_subterms_self
  refine ⟨hself.known, ?_⟩
  cases ast with
  | literal value range =>
      rw [check, evaluate, evaluateWith]
      exact hself.uniform.mono False.elim _
  | name n range => exact delivers_name (hs.lookup? n) herrors
  | list items range =>
      have hitems := keepsType_of_mem hs hwidened items
        (fun t ht => htame t (List.mem_cons_of_mem _ ht)) (by rwa [check] at herrors)
      exact delivers_list hself hitems
  | unary op operand range =>
      have hoperand := keepsType hs hwidened operand
        (fun t ht => htame t (List.mem_cons_of_mem _ ht)) (errors_of_unary herrors)
      exact delivers_unary hself herrors hoperand
  | binary op left right range =>
      have herrors' := errors_of_binary herrors
      have hleft := keepsType hs hwidened left
        (fun t ht => htame t (by simp [subterms, ht])) herrors'.1
      have hright := keepsType hs hwidened right
        (fun t ht => htame t (by simp [subterms, ht])) herrors'.2
      exact delivers_binary hself herrors hleft hright
  | conditional condition then_ else_ range =>
      rw [check] at herrors ⊢
      simp only [List.append_eq_nil_iff, expectType_eq_nil] at herrors
      obtain ⟨⟨⟨hc, hbool⟩, ha⟩, hb⟩ := herrors
      have hcondition := keepsType hs hwidened condition
        (fun t ht => htame t (by simp [subterms, ht])) hc
      have hthen := keepsType hs hwidened then_
        (fun t ht => htame t (by simp [subterms, ht])) ha
      have helse := keepsType hs hwidened else_
        (fun t ht => htame t (by simp [subterms, ht])) hb
      rw [evaluate, evaluateWith]
      exact delivers_choice hbool hcondition hthen helse
  | call function arguments range =>
      have harguments := keepsType_of_mem hs hwidened arguments
        (fun t ht => htame t (List.mem_cons_of_mem _ ht)) (errors_of_call herrors)
      exact delivers_call hs hwidened hself herrors harguments
  | member object m range =>
      have hobject := keepsType hs hwidened object
        (fun t ht => htame t (List.mem_cons_of_mem _ ht)) (errors_of_member herrors)
      exact delivers_member herrors hobject
  | index object i range =>
      have herrors' := errors_of_index herrors
      have hobject := keepsType hs hwidened object
        (fun t ht => htame t (by simp [subterms, ht])) herrors'.1
      have hi := keepsType hs hwidened i
        (fun t ht => htame t (by simp [subterms, ht])) herrors'.2
      exact delivers_index herrors hwidened hobject hi
  | interpolation parts range =>
      have hparts := keepsType_of_mem hs hwidened parts
        (fun t ht => htame t (List.mem_cons_of_mem _ ht)) (by rwa [check] at herrors)
      rw [check, evaluate, evaluateWith]
      exact (delivers_evaluateText hparts).bind fun text _ _ => ⟨text, rfl⟩

/-- The same for several formulas. -/
theorem keepsType_of_mem (hs : s.HoldsValues) (hwidened : widened → casts) (asts : List (Ast α))
    (htame : ∀ t ∈ subtermsOfAll asts, t.Tame s widened casts)
    (herrors : (checkAll s asts).2 = []) : ∀ ast ∈ asts, KeepsType s widened casts ast := by
  cases asts with
  | nil => simp
  | cons first rest =>
      rw [checkAll_cons, List.append_eq_nil_iff] at herrors
      have hfirst := keepsType hs hwidened first
        (fun t ht => htame t (List.mem_append_left _ ht)) herrors.1
      have hrest := keepsType_of_mem hs hwidened rest
        (fun t ht => htame t (List.mem_append_right _ ht)) herrors.2
      exact List.forall_mem_cons.mpr ⟨hfirst, hrest⟩

end

/-- If a formula passes its check, evaluation never applies an operator to operands of a wrong type
nor asks for a member that is not there. It refuses a conversion only where `len` or `int` take an
argument of another type, or an operation on integers overflows; without such an operation the
check's type accepts that of the value. -/
theorem evaluate_of_passes (hs : s.HoldsValues) {ast : Ast α} (hpasses : ast.Passes s)
    (huniform : ∀ t ∈ ast.subterms, t.IsUniform s) :
    (∀ op left right, ast.evaluate s ≠ .error (.invalidOperands op left right)) ∧
    (∀ m owner, ast.evaluate s ≠ .error (.noSuchMember m owner)) ∧
    (∀ source target, ast.evaluate s = .error (.badCast source target) →
      ∃ t ∈ ast.subterms, t.Overflows s ∨ t.Converts s) ∧
    (∀ v, ast.evaluate s = .ok v → (∀ t ∈ ast.subterms, ¬ t.Overflows s) →
      (ast.check s).type.accepts v.type = true) := by
  let widened : Prop := ∃ t ∈ ast.subterms, t.Overflows s
  let casts : Prop := ∃ t ∈ ast.subterms, t.Overflows s ∨ t.Converts s
  have htame : ∀ t ∈ ast.subterms, t.Tame s widened casts := fun t ht =>
    { known := hpasses.known t ht
      uniform := huniform t ht
      overflow := fun h => ⟨t, ht, h⟩
      conversion := fun h => ⟨t, ht, .inr h⟩ }
  have hwidened : widened → casts := fun ⟨t, ht, h⟩ => ⟨t, ht, .inl h⟩
  have hkeeps := (keepsType hs hwidened ast htame hpasses.errors_eq_nil).delivers
  refine ⟨fun op left right h => ?_, fun m owner h => ?_, fun source target h => ?_,
    fun v h hnone => ?_⟩ <;> rw [h] at hkeeps
  · exact hkeeps
  · exact hkeeps
  · exact hkeeps
  · have hconforms : (ast.check s).type.Conforms v :=
      ValueType.Admits.mono (fun ⟨t, ht, hover⟩ => hnone t ht hover) _ hkeeps
    exact ValueType.accepts_of_conforms _ hconforms

omit [Number α] in
theorem holdsValues_empty : (Scope.empty : Scope α).HoldsValues where
  function?_eq_none _ := rfl
  lookup? _ _ h := by cases h

/-- In `len([7]) + 1`, lists are of one type and nothing overflows. -/
theorem evaluate_of_passes_sum :
    let length : Ast Float := .call "len" [.list [.literal (.int 7) ⟨5, 6⟩] ⟨4, 7⟩] ⟨0, 8⟩
    let ast : Ast Float := .binary .add length (.literal (.int 1) ⟨11, 12⟩) ⟨0, 12⟩
    ast.evaluate Scope.empty = .ok (.int 2) ∧
      (ast.check Scope.empty).type.accepts (Value.int 2 : Value Float).type = true := by
  intro length ast
  have hlength : length.evaluate Scope.empty = .ok (.int 1) := by
    simp only [length, evaluate, evaluateWith, evaluateAll]
    rfl
  have hvalue : ast.evaluate Scope.empty = .ok (.int 2) := by
    simp only [ast, length, evaluate, evaluateWith, evaluateAll]
    rfl
  have hpasses : ast.Passes Scope.empty := ⟨rfl, by decide⟩
  have hseven : ValueType.int.Conforms (.int 7 : Value Float) := .inl ⟨7, rfl⟩
  have hone : ValueType.int.Conforms (.int 1 : Value Float) := .inl ⟨1, rfl⟩
  have huniform : ∀ t ∈ ast.subterms, t.IsUniform Scope.empty := by
    have hsum : ast.IsUniform Scope.empty := by rintro item more ⟨⟩
    simpa [ast, length, subterms, subtermsOfAll, IsUniform] using ⟨hsum, hseven, hone⟩
  have hfits : ∀ t ∈ ast.subterms, ¬ t.Overflows Scope.empty := by
    have hsum : ¬ ast.Overflows Scope.empty := by
      rintro ⟨m, n, hm, hn, hover⟩
      rw [hlength] at hm
      rw [evaluate, evaluateWith] at hn
      cases hm
      cases hn
      cases hover
    simpa [ast, length, subterms, subtermsOfAll, Overflows] using hsum
  exact ⟨hvalue, (evaluate_of_passes holdsValues_empty hpasses huniform).2.2.2 _ hvalue hfits⟩

/-- Lists of several types, conversions and overflow are not noticed by the check: `[1, 'a'][1] - 1`
subtracts from a text, `len(5)` has no value, and `9223372036854775807 + 1` is no integer. -/
theorem passes_unsound :
    let one : ByteRange → Ast Float := .literal (.int 1)
    let item : Ast Float :=
      .binary .subtract
        (.index (.list [one ⟨1, 2⟩, .literal (.string "a") ⟨4, 7⟩] ⟨0, 8⟩) (one ⟨9, 10⟩) ⟨0, 11⟩)
        (one ⟨14, 15⟩) ⟨0, 15⟩
    let length : Ast Float := .call "len" [.literal (.int 5) ⟨4, 5⟩] ⟨0, 6⟩
    let sum : Ast Float :=
      .binary .add (.literal (.int 9223372036854775807) ⟨0, 19⟩) (one ⟨22, 23⟩) ⟨0, 23⟩
    (Scope.empty : Scope Float).HoldsValues ∧
    (item.Passes .empty ∧ item.evaluate .empty = .error (.invalidOperands "-" "string" "int")) ∧
    (length.Passes .empty ∧ length.evaluate .empty = .error (.badCast "int" "list")) ∧
    (sum.Passes .empty ∧
      ∃ v, sum.evaluate .empty = .ok v ∧ (sum.check .empty).type.accepts v.type = false) := by
  intro one item length sum
  have hitem : item.Passes .empty := ⟨rfl, by decide⟩
  have hlength : length.Passes .empty := ⟨rfl, by decide⟩
  have hsum : sum.Passes .empty := ⟨rfl, by decide⟩
  let v : Value Float := .scalar (Number.ofInt64 9223372036854775807 + Number.ofInt64 1)
  refine ⟨holdsValues_empty, ⟨hitem, ?_⟩, ⟨hlength, ?_⟩, hsum, v, ?_, rfl⟩
  all_goals
    simp only [item, length, sum, one, evaluate, evaluateWith, evaluateAll]
    rfl

end Ast

end PatternMarkup
