import PatternMarkup.Number.Double
import PatternMarkup.Proofs.Formula.Folding
import PatternMarkup.Proofs.Formula.GrammarReading
import PatternMarkup.Proofs.Formula.Subterms
/-!
What a formula reads. Its value depends on the names and functions that occur in it and on nothing
else: two scopes that give those the same meaning give the formula the same value, or the same
error. A formula that has a value keeps it when names that had none are given one.
-/

namespace PatternMarkup

variable {α : Type}

namespace Ast

/-! ### Names and functions in a formula -/

theorem mem_addName {names : List String} {name n : String} :
    n ∈ addName names name ↔ n ∈ names ∨ n = name := by
  unfold addName
  by_cases hname : names.contains name
  · rw [if_pos hname]
    constructor
    · exact .inl
    · rintro (h | rfl)
      · exact h
      · simpa using hname
  · rw [if_neg hname]
    simp

mutual

/-- The names that occur in a formula are added to those given, which stay. -/
theorem mem_addNames {n : String} (names : List String) :
    (ast : Ast α) → (n ∈ ast.addNames names ↔
      n ∈ names ∨ ∃ range, .name n range ∈ ast.subterms)
  | literal value range => by simp [addNames, subterms]
  | name m range => by simp [addNames, subterms, mem_addName]
  | list items range => by
      rw [addNames, subterms, mem_addAllNames names items]
      simp
  | unary op operand range => by
      rw [addNames, subterms, mem_addNames names operand]
      simp
  | binary op left right range => by
      rw [addNames, subterms, mem_addNames _ right, mem_addNames names left]
      simp [or_assoc, exists_or]
  | conditional condition then_ else_ range => by
      rw [addNames, subterms, mem_addNames _ else_, mem_addNames _ then_,
        mem_addNames names condition]
      simp [or_assoc, exists_or]
  | call function arguments range => by
      rw [addNames, subterms, mem_addAllNames names arguments]
      simp
  | member object m range => by
      rw [addNames, subterms, mem_addNames names object]
      simp
  | index object i range => by
      rw [addNames, subterms, mem_addNames _ i, mem_addNames names object]
      simp [or_assoc, exists_or]
  | interpolation parts range => by
      rw [addNames, subterms, mem_addAllNames names parts]
      simp

theorem mem_addAllNames {n : String} (names : List String) :
    (asts : List (Ast α)) → (n ∈ addAllNames names asts ↔
      n ∈ names ∨ ∃ range, .name n range ∈ subtermsOfAll asts)
  | [] => by simp [addAllNames, subtermsOfAll]
  | ast :: rest => by
      rw [addAllNames, subtermsOfAll, mem_addAllNames _ rest, mem_addNames names ast]
      simp [or_assoc, exists_or]

end

/-- The names a formula reads are those that occur in it. -/
theorem mem_freeNames {n : String} {ast : Ast α} :
    n ∈ ast.freeNames ↔ ∃ range, .name n range ∈ ast.subterms := by
  simp [freeNames, mem_addNames]

theorem mem_freeNames_of_mem_children {child ast : Ast α} (h : child ∈ ast.children) {n : String}
    (hn : n ∈ child.freeNames) : n ∈ ast.freeNames := by
  obtain ⟨range, hrange⟩ := mem_freeNames.mp hn
  exact mem_freeNames.mpr ⟨range, subterms_subset_of_mem_children h hrange⟩

/-- A call of a function occurs in the formula. -/
def Calls (ast : Ast α) (function : String) : Prop :=
  ∃ arguments range, .call function arguments range ∈ ast.subterms

theorem calls_self (function : String) (arguments : List (Ast α)) (range : ByteRange) :
    (call function arguments range).Calls function :=
  ⟨arguments, range, mem_subterms_self _⟩

theorem Calls.of_mem_children {child ast : Ast α} (h : child ∈ ast.children) {function : String}
    (hcalls : child.Calls function) : ast.Calls function := by
  obtain ⟨arguments, range, hcall⟩ := hcalls
  exact ⟨arguments, range, subterms_subset_of_mem_children h hcall⟩

/-! ### Surroundings that agree -/

/-- Two surroundings give the names and functions in a formula the same meaning. -/
structure ReadsSame (ast : Ast α) (env env' : Environment α) : Prop where
  read : ∀ n ∈ ast.freeNames, env.read n = env'.read n
  function? : ∀ f, ast.Calls f → env.function? f = env'.function? f

theorem ReadsSame.of_mem_children {child ast : Ast α} {env env' : Environment α}
    (h : ast.ReadsSame env env') (hchild : child ∈ ast.children) : child.ReadsSame env env' where
  read n hn := h.read n (mem_freeNames_of_mem_children hchild hn)
  function? f hf := h.function? f (hf.of_mem_children hchild)

variable [Number α] {env env' : Environment α}

/-- Surroundings that agree on the names and functions in a formula agree on its value. The
induction is on the formula: what occurs in a part of it occurs in the whole. -/
theorem evaluateWith_eq (ast : Ast α) (h : ast.ReadsSame env env') :
    ast.evaluateWith env = ast.evaluateWith env' := by
  induction ast using induction_on_children with
  | step ast ih =>
  have hparts : ∀ child ∈ ast.children, child.evaluateWith env = child.evaluateWith env' :=
    fun child hchild => ih child hchild (h.of_mem_children hchild)
  cases ast with
  | literal value range => rw [evaluateWith, evaluateWith]
  | name n range =>
      rw [evaluateWith, evaluateWith]
      exact h.read n (mem_freeNames.mpr ⟨range, mem_subterms_self _⟩)
  | list items range =>
      have hitems : SameResults env env' items items := List.forall₂_same.mpr hparts
      rw [evaluateWith, evaluateWith, hitems.evaluateAll_eq]
  | unary op operand range =>
      have hoperand := hparts operand (by simp [children])
      rw [evaluateWith, evaluateWith, hoperand]
  | binary op left right range =>
      have hleft := hparts left (by simp [children])
      have hright := hparts right (by simp [children])
      rw [evaluateWith, evaluateWith, hleft, hright]
  | conditional condition then_ else_ range =>
      have hcondition := hparts condition (by simp [children])
      have hthen := hparts then_ (by simp [children])
      have helse := hparts else_ (by simp [children])
      rw [evaluateWith, evaluateWith, hcondition, hthen, helse]
  | call function arguments range =>
      have hfunction := h.function? function (calls_self function arguments range)
      have harguments : SameResults env env' arguments arguments := List.forall₂_same.mpr hparts
      exact harguments.evaluateWith_call hfunction range
  | member object m range =>
      have hobject := hparts object (by simp [children])
      rw [evaluateWith, evaluateWith, hobject]
  | index object i range =>
      have hobject := hparts object (by simp [children])
      have hi := hparts i (by simp [children])
      rw [evaluateWith, evaluateWith, hobject, hi]
  | interpolation parts range =>
      have hsame : SameResults env env' parts parts := List.forall₂_same.mpr hparts
      rw [evaluateWith, evaluateWith, hsame.evaluateText_eq]

end Ast

/-! ### Names in scopes -/

namespace Scope

/-- A name stands for the same in two scopes, and for no formula: for one value, for something that
has no value and is missed with one error, or for nothing. -/
inductive SameMeaning (s t : Scope α) (n : String) : Prop
  | value (v : Value α) (b c : Binding α) (hs : s.lookup? n = some b) (ht : t.lookup? n = some c)
      (hb : b.value? = some (.constant v)) (hc : c.value? = some (.constant v))
  | missing (b c : Binding α) (hs : s.lookup? n = some b) (ht : t.lookup? n = some c)
      (hb : b.value? = none) (hc : c.value? = none) (h : b.missing n = c.missing n)
  | unknown (hs : s.lookup? n = none) (ht : t.lookup? n = none)

variable {s t : Scope α} {n : String} {b : Binding α}

theorem exists_owner_of_lookup? (h : s.lookup? n = some b) :
    ∃ owner, resolveIn n s.frames = some (b, owner) := by
  obtain ⟨⟨found, owner⟩, hresolve, rfl⟩ := Option.map_eq_some_iff.mp h
  exact ⟨owner, hresolve⟩

variable [Number α]

theorem environment_read (s : Scope α) (n : String) :
    s.environment.read n = readName s.frames [] (formulaKeys s.frames) n := rfl

theorem read_of_value (h : s.lookup? n = some b) {v : Value α}
    (hv : b.value? = some (.constant v)) : s.environment.read n = .ok v := by
  obtain ⟨owner, hresolve⟩ := exists_owner_of_lookup? h
  have hcontent : b.content = .bound (.constant v) := by
    unfold Binding.value? at hv
    split at hv
    · rename_i heq
      rw [heq, Option.some.inj hv]
    · cases hv
  rw [environment_read, readName, hresolve]
  simp only [hcontent]

theorem read_of_missing (h : s.lookup? n = some b) (hv : b.value? = none) :
    s.environment.read n = .error (b.missing n) := by
  obtain ⟨owner, hresolve⟩ := exists_owner_of_lookup? h
  rw [environment_read, readName, hresolve]
  unfold Binding.value? at hv
  cases hcontent : b.content with
  | bound value => simp [hcontent] at hv
  | declared => simp only [hcontent]
  | failed e => simp only [hcontent]

/-- A name that stands for nothing has the meaning every formula knows. -/
theorem read_of_unknown (h : s.lookup? n = none) :
    s.environment.read n = (Builtin.constant? n).elim (.error (.undefinedName n)) .ok := by
  have hnone : resolveIn n s.frames = none := Option.map_eq_none_iff.mp h
  rw [environment_read, readName, hnone]
  cases (Builtin.constant? n : Option (Value α)) <;> rfl

theorem SameMeaning.read_eq (h : s.SameMeaning t n) :
    s.environment.read n = t.environment.read n := by
  cases h with
  | value v b c hs ht hb hc => rw [read_of_value hs hb, read_of_value ht hc]
  | missing b c hs ht hb hc h => rw [read_of_missing hs hb, read_of_missing ht hc, h]
  | unknown hs ht => rw [read_of_unknown hs, read_of_unknown ht]

end Scope

variable [Number α]

/-- Two scopes that give the names and functions in a formula the same meaning give the formula the
same value, or the same error. So a formula that is folded to a literal in one of them has that
value in the other. -/
theorem Ast.evaluate_eq_of_sameMeaning {s t : Scope α} {ast : Ast α}
    (hnames : ∀ n ∈ ast.freeNames, s.SameMeaning t n)
    (hfunctions : ∀ f, ast.Calls f → s.function? f = t.function? f) :
    ast.evaluate s = ast.evaluate t ∧
      ∀ v, (ast.fold s).literal? = some v → ast.evaluate t = .ok v := by
  have hreads : ast.ReadsSame s.environment t.environment :=
    ⟨fun n hn => (hnames n hn).read_eq, hfunctions⟩
  have hsame : ast.evaluate s = ast.evaluate t := evaluateWith_eq ast hreads
  refine ⟨hsame, fun v hv => ?_⟩
  calc
    ast.evaluate t = ast.evaluate s := hsame.symm
    _ = (ast.fold s).evaluateWith s.environment :=
      (evaluateWith_foldWith s.environment_knows_shadows ast).symm
    _ = .ok v := evaluateWith_of_literal? hv

/-- In `[red, max(1, 2)]`, no variable is read: what `x` stands for, and where, does not matter. -/
theorem Ast.evaluate_eq_of_sameMeaning_red :
    let ast : Ast Float :=
      .list [.name "red" ⟨1, 4⟩,
        .call "max" [.literal (.int 1) ⟨10, 11⟩, .literal (.int 2) ⟨13, 14⟩] ⟨6, 15⟩] ⟨0, 16⟩
    let red : Value Float := .color ⟨Number.one, Number.zero, Number.zero, Number.one⟩
    let s : Scope Float := (Scope.empty.bindValue "x" (.int 7)).child
    let t : Scope Float := Scope.empty.declare "x" .scalar
    ast.evaluate s = ast.evaluate t ∧ ast.evaluate t = .ok (.list [red, .int 2]) := by
  intro ast red s t
  have hnames : ∀ n ∈ ast.freeNames, s.SameMeaning t n := by
    intro n hn
    obtain rfl : n = "red" := by simpa [ast, freeNames, addNames, addAllNames, addName] using hn
    exact .unknown rfl rfl
  have hfunctions : ∀ f, ast.Calls f → s.function? f = t.function? f := fun _ _ => rfl
  obtain ⟨hsame, hfold⟩ := evaluate_eq_of_sameMeaning hnames hfunctions
  exact ⟨hsame, hfold _ rfl⟩

/-! ### Surroundings that define more -/

namespace Ast

variable {env env' : Environment α}

/-- What the first surroundings give the names in a formula, the second ones give as well, and the
functions are the same. -/
structure DefinedIn (ast : Ast α) (env env' : Environment α) : Prop where
  read : ∀ n ∈ ast.freeNames, ∀ v, env.read n = .ok v → env'.read n = .ok v
  function? : ∀ f, env.function? f = env'.function? f

omit [Number α] in
theorem DefinedIn.of_mem_children {child ast : Ast α} (h : ast.DefinedIn env env')
    (hchild : child ∈ ast.children) : child.DefinedIn env env' where
  read n hn := h.read n (mem_freeNames_of_mem_children hchild hn)
  function? := h.function?

/-- Whatever value a formula has in the first surroundings, it has in the second. -/
def Keeps (env env' : Environment α) (ast : Ast α) : Prop :=
  ∀ v, ast.evaluateWith env = .ok v → ast.evaluateWith env' = .ok v

open FormulaParser (exists_of_bind_eq_ok)

theorem evaluateAll_of_keeps {asts : List (Ast α)} (h : ∀ ast ∈ asts, ast.Keeps env env')
    {values : List (Value α)} (hvalues : evaluateAll env asts = .ok values) :
    evaluateAll env' asts = .ok values := by
  induction asts generalizing values with
  | nil => rwa [evaluateAll] at hvalues ⊢
  | cons ast rest ih =>
      obtain ⟨hast, hrest⟩ := List.forall_mem_cons.mp h
      rw [evaluateAll] at hvalues ⊢
      obtain ⟨v, hv, hvalues⟩ := exists_of_bind_eq_ok hvalues
      obtain ⟨vs, hvs, hvalues⟩ := exists_of_bind_eq_ok hvalues
      rw [hast v hv, ih hrest hvs]
      exact hvalues

theorem evaluateText_of_keeps {asts : List (Ast α)} (h : ∀ ast ∈ asts, ast.Keeps env env')
    {text : String} (htext : evaluateText env asts = .ok text) :
    evaluateText env' asts = .ok text := by
  induction asts generalizing text with
  | nil => rwa [evaluateText] at htext ⊢
  | cons ast rest ih =>
      obtain ⟨hast, hrest⟩ := List.forall_mem_cons.mp h
      rw [evaluateText] at htext ⊢
      obtain ⟨v, hv, htext⟩ := exists_of_bind_eq_ok htext
      obtain ⟨more, hmore, htext⟩ := exists_of_bind_eq_ok htext
      rw [hast v hv, ih hrest hmore]
      exact htext

/-- A choice between two formulas, of which one is evaluated. -/
theorem choice_of_keeps {condition then_ else_ : Ast α} (hcondition : condition.Keeps env env')
    (hthen : then_.Keeps env env') (helse : else_.Keeps env env') {v : Value α}
    (h : (do
      let c ← condition.evaluateWith env
      if ← c.asCondition then then_.evaluateWith env else else_.evaluateWith env) = .ok v) :
    (do
      let c ← condition.evaluateWith env'
      if ← c.asCondition then then_.evaluateWith env' else else_.evaluateWith env') = .ok v := by
  obtain ⟨c, hc, h⟩ := exists_of_bind_eq_ok h
  obtain ⟨b, hb, h⟩ := exists_of_bind_eq_ok h
  rw [hcondition c hc]
  change (c.asCondition >>= _) = _
  rw [hb]
  cases b with
  | true => exact hthen v h
  | false => exact helse v h

theorem evaluateChoice_of_keeps {arguments : List (Ast α)}
    (h : ∀ ast ∈ arguments, ast.Keeps env env') {v : Value α}
    (hv : evaluateChoice env arguments = .ok v) : evaluateChoice env' arguments = .ok v := by
  unfold evaluateChoice at hv ⊢
  split at hv
  · next condition then_ else_ =>
      exact choice_of_keeps (h _ (by simp)) (h _ (by simp)) (h _ (by simp)) hv
  · next hnot =>
      obtain ⟨values, hvalues, hv⟩ := exists_of_bind_eq_ok hv
      simp only [evaluateAll_of_keeps h hvalues]
      exact hv

/-- A value is kept by surroundings that define more. The induction is on the formula. -/
theorem evaluateWith_of_definedIn (ast : Ast α) (h : ast.DefinedIn env env') :
    ast.Keeps env env' := by
  induction ast using induction_on_children with
  | step ast ih =>
  have hparts : ∀ child ∈ ast.children, child.Keeps env env' :=
    fun child hchild => ih child hchild (h.of_mem_children hchild)
  intro v hv
  cases ast with
  | literal value range => rwa [evaluateWith] at hv ⊢
  | name n range =>
      rw [evaluateWith] at hv ⊢
      exact h.read n (mem_freeNames.mpr ⟨range, mem_subterms_self _⟩) v hv
  | list items range =>
      rw [evaluateWith] at hv ⊢
      obtain ⟨values, hvalues, hv⟩ := exists_of_bind_eq_ok hv
      have hvalues' : evaluateAll env' items = .ok values := evaluateAll_of_keeps hparts hvalues
      rw [hvalues']
      exact hv
  | unary op operand range =>
      have hoperand := hparts operand (by simp [children])
      rw [evaluateWith] at hv ⊢
      obtain ⟨x, hx, hv⟩ := exists_of_bind_eq_ok hv
      rw [hoperand x hx]
      exact hv
  | binary op left right range =>
      have hleft := hparts left (by simp [children])
      have hright := hparts right (by simp [children])
      rw [evaluateWith] at hv ⊢
      obtain ⟨x, hx, hv⟩ := exists_of_bind_eq_ok hv
      rw [hleft x hx]
      simp only [bind, Except.bind]
      cases hshort : op.shortcut? x with
      | some w => simpa [hshort] using hv
      | none =>
          simp only [hshort] at hv
          obtain ⟨y, hy, hv⟩ := exists_of_bind_eq_ok hv
          simp only [hright y hy]
          exact hv
  | conditional condition then_ else_ range =>
      rw [evaluateWith] at hv ⊢
      exact choice_of_keeps (hparts condition (by simp [children]))
        (hparts then_ (by simp [children])) (hparts else_ (by simp [children])) hv
  | call function arguments range =>
      rw [evaluateWith, ← h.function? function]
      rw [evaluateWith] at hv
      cases hhost : env.function? function with
      | some host =>
          simp only [hhost] at hv ⊢
          split at hv
          · next harity =>
              obtain ⟨values, hvalues, hv⟩ := exists_of_bind_eq_ok hv
              have hvalues' : evaluateAll env' arguments = .ok values :=
                evaluateAll_of_keeps hparts hvalues
              rw [if_pos harity, hvalues']
              exact hv
          · cases hv
      | none =>
          simp only [hhost] at hv ⊢
          split at hv
          · cases hv
          · exact evaluateChoice_of_keeps hparts hv
          · next b _ =>
              obtain ⟨values, hvalues, hv⟩ := exists_of_bind_eq_ok hv
              have hvalues' : evaluateAll env' arguments = .ok values :=
                evaluateAll_of_keeps hparts hvalues
              simp only [hvalues']
              exact hv
  | member object m range =>
      have hobject := hparts object (by simp [children])
      rw [evaluateWith] at hv ⊢
      obtain ⟨x, hx, hv⟩ := exists_of_bind_eq_ok hv
      rw [hobject x hx]
      exact hv
  | index object i range =>
      have hobject := hparts object (by simp [children])
      have hi := hparts i (by simp [children])
      rw [evaluateWith] at hv ⊢
      obtain ⟨x, hx, hv⟩ := exists_of_bind_eq_ok hv
      obtain ⟨y, hy, hv⟩ := exists_of_bind_eq_ok hv
      rw [hobject x hx, hi y hy]
      exact hv
  | interpolation parts range =>
      rw [evaluateWith] at hv ⊢
      obtain ⟨text, htext, hv⟩ := exists_of_bind_eq_ok hv
      have htext' : evaluateText env' parts = .ok text := evaluateText_of_keeps hparts htext
      rw [htext']
      exact hv

end Ast

end PatternMarkup
