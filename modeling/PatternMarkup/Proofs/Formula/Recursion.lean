import Mathlib
import PatternMarkup.Number.Double
import PatternMarkup.Proofs.Formula.ErrorSources
import PatternMarkup.Proofs.Formula.TrackedReading
/-!
What an error of recursion says. Main statement: evaluation ends, and where it ends with an error
of recursion that no function and no failed name has brought in, the names of the error are those
of definitions each of which uses the next one, from one definition back to the same one.
-/

namespace PatternMarkup

variable {α β : Type}

/-- Every error of recursion that a result is names variables as it should. -/
def OnRecursion (proper : List String → Prop) (result : Except EvalError β) : Prop :=
  ∀ chain, result = .error (.recursion chain) → proper chain

section Results

variable {proper : List String → Prop}

@[simp] theorem onRecursion_ok (x : β) :
    OnRecursion proper (.ok x : Except EvalError β) := by
  intro chain h
  cases h

@[simp] theorem onRecursion_error {e : EvalError} :
    OnRecursion proper (.error e : Except EvalError β) ↔
      ∀ chain, e = .recursion chain → proper chain := by
  simp [OnRecursion]

end Results

/-- If functions and the names that a formula reads name variables as they should where they make
an error of recursion, so does the formula, which makes none of its own. -/
theorem Ast.onRecursion_evaluateWith [Number α] {proper : List String → Prop}
    {env : Environment α}
    (hcall : ∀ n host, env.function? n = some host → ∀ values,
      OnRecursion proper (host.call values))
    (ast : Ast α) (hread : ∀ n ∈ ast.freeNames, OnRecursion proper (env.read n)) :
    OnRecursion proper (ast.evaluateWith env) := by
  intro chain hchain
  cases failsOnly_evaluateWith ast _ hchain with
  | name n range hmem h => exact hread n (mem_freeNames.mpr ⟨range, hmem⟩) chain h
  | call function arguments range hmem h =>
      cases h with
      | host host hfunction values _ hvalues =>
          exact hcall function host hfunction values chain hvalues
  | values h => exact h.elim

/-! ### Definitions -/

/-- A name that stands for a formula, with the levels from the one that binds it outward. -/
structure Definition (α : Type) where
  name : String
  owner : List (Frame α)
  binding : Binding α
  formula : Formula α
  bound : resolveIn name owner = some (binding, owner)
  content : binding.content = .bound (.formula formula)

/-- A formula names a definition, and the levels around the formula give the name that meaning. -/
structure Ast.Uses (ast : Ast α) (frames : List (Frame α)) (d : Definition α) : Prop where
  mem : d.name ∈ ast.freeNames
  resolved : resolveIn d.name frames = some (d.binding, d.owner)

namespace Definition

/-- The variable of the definition. -/
def key (d : Definition α) : VariableKey := (d.name, d.owner.length)

/-- The formula of a definition, read where it is bound, uses another definition or the same. -/
def Uses (d e : Definition α) : Prop := d.formula.ast.Uses d.owner e

/-- A formula in some levels uses a definition, at once or through others. -/
def IsReached (ast : Ast α) (frames : List (Frame α)) (d : Definition α) : Prop :=
  ∃ first, ast.Uses frames first ∧ Relation.ReflTransGen Uses first d

/-- Definitions that a formula in some levels reaches, each of which uses the next one. -/
structure IsTrail (ast : Ast α) (frames : List (Frame α)) (trail : List (Definition α)) :
    Prop where
  linked : trail.IsChain Uses
  reached : ∀ d ∈ trail, d.IsReached ast frames

/-- A trail of definitions from one back to the same one, with their names. -/
structure IsCycle (ast : Ast α) (frames : List (Frame α)) (cycle : List (Definition α))
    (names : List String) : Prop extends IsTrail ast frames cycle where
  names_eq : names = cycle.map (·.name)
  two_le_length : 2 ≤ cycle.length
  closed : cycle.head? = cycle.getLast?

/-- Among the levels of a scope, a variable has one definition. -/
theorem eq_of_key_eq {frames : List (Frame α)} {d e : Definition α} (hd : d.owner <:+ frames)
    (he : e.owner <:+ frames) (h : d.key = e.key) : d = e := by
  obtain ⟨name, owner, b, f, hbound, hcontent⟩ := d
  obtain ⟨name', owner', b', f', hbound', hcontent'⟩ := e
  obtain ⟨rfl, hlength⟩ := Prod.mk.injEq .. ▸ h
  have howner : owner = owner' :=
    (List.suffix_of_suffix_length_le hd he hlength.le).eq_of_length hlength
  subst howner
  obtain rfl : b = b' := by simpa using hbound.symm.trans hbound'
  obtain rfl : f = f' := by simpa using hcontent.symm.trans hcontent'
  rfl

variable {ast : Ast α} {frames : List (Frame α)}

theorem Uses.owner_suffix {d e : Definition α} (h : d.Uses e) : e.owner <:+ d.owner :=
  resolveIn_suffix h.resolved

theorem IsReached.owner_suffix {d : Definition α} (h : d.IsReached ast frames) :
    d.owner <:+ frames := by
  obtain ⟨first, hfirst, hsteps⟩ := h
  induction hsteps with
  | refl => exact resolveIn_suffix hfirst.resolved
  | tail _ huses ih => exact huses.owner_suffix.trans ih

theorem isTrail_singleton {d : Definition α} (h : ast.Uses frames d) :
    IsTrail ast frames [d] where
  linked := List.isChain_singleton d
  reached e he := by
    rw [List.mem_singleton.mp he]
    exact ⟨d, h, .refl⟩

/-- What the last definition of a trail uses comes next. -/
theorem IsTrail.concat {trail : List (Definition α)} {d e : Definition α}
    (h : IsTrail ast frames (trail ++ [d])) (huses : d.Uses e) :
    IsTrail ast frames (trail ++ [d] ++ [e]) where
  linked := by
    refine h.linked.append (List.isChain_singleton e) fun x hx y hy => ?_
    obtain rfl : d = x := by simpa using hx
    obtain rfl : e = y := by simpa using hy
    exact huses
  reached x hx := by
    rcases List.mem_append.mp hx with hx | hx
    · exact h.reached x hx
    · rw [List.mem_singleton.mp hx]
      obtain ⟨first, hfirst, hsteps⟩ := h.reached d (by simp)
      exact ⟨first, hfirst, hsteps.tail huses⟩

/-- Where a trail comes back to a definition on it, the way there and back is a cycle. -/
theorem IsTrail.cycle {before after : List (Definition α)} {d : Definition α}
    (h : IsTrail ast frames (before ++ d :: after ++ [d])) :
    IsCycle ast frames (d :: after ++ [d]) ((d :: after ++ [d]).map (·.name)) where
  linked := by
    have hlinked := h.linked
    rw [List.append_assoc] at hlinked
    exact hlinked.right_of_append
  reached e he := h.reached e (by
    rw [List.append_assoc]
    exact List.mem_append_right before he)
  names_eq := rfl
  two_le_length := by simp
  closed := by rw [List.getLast?_concat, List.cons_append, List.head?_cons]

end Definition

/-- The functions and the failed names of a scope make no error of recursion. -/
structure Scope.RaisesNoRecursion (s : Scope α) : Prop where
  call_ne : ∀ frame ∈ s.frames, ∀ host ∈ frame.functions, ∀ values chain,
    host.call values ≠ .error (.recursion chain)
  content_ne : ∀ frame ∈ s.frames, ∀ bound ∈ frame.bindings, ∀ chain,
    bound.2.content ≠ .failed (.recursion chain)

/-! ### Evaluation -/

theorem exists_mem_of_functionIn {name : String} {frames : List (Frame α)}
    {host : HostFunction α} (h : functionIn name frames = some host) :
    ∃ frame ∈ frames, host ∈ frame.functions := by
  induction frames with
  | nil => cases h
  | cons frame outer ih =>
      rw [functionIn, Option.or_eq_some_iff] at h
      rcases h with h | ⟨-, h⟩
      · exact ⟨frame, List.mem_cons_self, List.mem_of_find?_eq_some h⟩
      · obtain ⟨other, hother, hmem⟩ := ih h
        exact ⟨other, List.mem_cons_of_mem frame hother, hmem⟩

variable {s : Scope α} {ast : Ast α}

/-- The names of a cycle of definitions that a formula in a scope reaches. -/
def NamesCycle (s : Scope α) (ast : Ast α) (names : List String) : Prop :=
  ∃ cycle, Definition.IsCycle ast s.frames cycle names

theorem Scope.RaisesNoRecursion.onRecursion_call (hs : s.RaisesNoRecursion) {n : String}
    {frames : List (Frame α)} (hframes : frames <:+ s.frames) {host : HostFunction α}
    (h : functionIn n frames = some host) (values : List (Value α)) {proper : List String → Prop} :
    OnRecursion proper (host.call values) := by
  obtain ⟨frame, hframe, hmem⟩ := exists_mem_of_functionIn h
  intro chain hchain
  exact absurd hchain (hs.call_ne frame (hframes.mem hframe) host hmem values chain)

theorem Scope.RaisesNoRecursion.onRecursion_missing (hs : s.RaisesNoRecursion) {n : String}
    {frames owner : List (Frame α)} (hframes : frames <:+ s.frames) {b : Binding α}
    (h : resolveIn n frames = some (b, owner)) {proper : List String → Prop} :
    OnRecursion proper (.error (b.missing n) : Except EvalError (Value α)) := by
  obtain ⟨frame, outer, rfl, hmem⟩ := exists_mem_of_resolveIn h
  have hframe : frame ∈ s.frames :=
    hframes.mem ((resolveIn_suffix h).mem List.mem_cons_self)
  rw [onRecursion_error]
  intro chain hchain
  rw [Binding.missing, Binding.failure?] at hchain
  split at hchain
  · rename_i e hcontent
    obtain rfl : e = .recursion chain := hchain
    exact absurd hcontent (hs.content_ne frame hframe (n, b) hmem chain)
  · cases hchain

variable [Number α]

/-- What a name that stands for a formula is read as. -/
theorem readName_of_resolved {frames : List (Frame α)} {d : Definition α}
    (h : resolveIn d.name frames = some (d.binding, d.owner)) (reading unread : List VariableKey) :
    readName frames reading unread d.name =
      if d.key ∈ unread then
        d.formula.ast.evaluateWith
          { read := readName d.owner (d.key :: reading) (dropKey d.key unread)
            function? := fun m => functionIn m d.owner }
      else .error (.recursion (recursionChain reading d.key)) := by
  rw [readName, h]
  simp only [d.content]
  rfl

/-- A name that does not stand for a formula makes no error of recursion. -/
theorem exists_definition_or_onRecursion (hs : s.RaisesNoRecursion) {frames : List (Frame α)}
    (hframes : frames <:+ s.frames) (n : String) :
    (∃ d : Definition α, d.name = n ∧ resolveIn n frames = some (d.binding, d.owner)) ∨
      ∀ reading unread (proper : List String → Prop),
        OnRecursion proper (readName frames reading unread n) := by
  cases hresolve : resolveIn n frames with
  | none =>
      refine .inr fun reading unread proper => ?_
      rw [readName, hresolve]
      cases (Builtin.constant? n : Option (Value α)) <;> simp
  | some found =>
      obtain ⟨b, owner⟩ := found
      by_cases hformula : ∃ f, b.content = .bound (.formula f)
      · obtain ⟨f, hcontent⟩ := hformula
        exact .inl ⟨⟨n, owner, b, f, resolveIn_owner hresolve, hcontent⟩, rfl, rfl⟩
      · refine .inr fun reading unread proper => ?_
        have hmissing : OnRecursion proper (.error (b.missing n) : Except EvalError (Value α)) :=
          hs.onRecursion_missing hframes hresolve
        rw [readName, hresolve]
        simp only
        split
        · exact onRecursion_ok _
        · rename_i f hcontent
          exact absurd ⟨f, hcontent⟩ hformula
        · exact hmissing

/-- Reading a name that the last definition of a trail uses names a cycle where it ends with an
error of recursion. The trail is the list of the variables being read: it grows by the definition
of the name, and a name whose variable is on it closes the cycle. -/
theorem onRecursion_readName (hs : s.RaisesNoRecursion) {trail : List (Definition α)}
    {frames : List (Frame α)} {unread : List VariableKey}
    (hsplits : Splits frames (trail.map (·.key)) unread) (hframes : frames <:+ s.frames)
    {n : String} (htrail : ∀ d : Definition α, d.name = n →
      resolveIn n frames = some (d.binding, d.owner) →
        Definition.IsTrail ast s.frames (trail ++ [d])) :
    OnRecursion (NamesCycle s ast)
      (readName frames (trail.map (·.key)).reverse unread n) := by
  induction hlength : unread.length using Nat.strong_induction_on
    generalizing trail frames unread n with
  | _ length ih =>
  rcases exists_definition_or_onRecursion hs hframes n with ⟨d, rfl, hresolve⟩ | hother
  · have hd : Definition.IsTrail ast s.frames (trail ++ [d]) := htrail d rfl hresolve
    have hsuffix : d.owner <:+ frames := resolveIn_suffix hresolve
    have hkey : d.key ∈ unread ↔ d.key ∉ trail.map (·.key) :=
      hsplits.unread_iff d.key (mem_formulaKeys hresolve (by simp [Binding.formula?, d.content]))
    rw [readName_of_resolved hresolve]
    by_cases hmem : d.key ∈ unread
    · rw [if_pos hmem]
      have hgrown : Splits d.owner ((trail ++ [d]).map (·.key)) (dropKey d.key unread) := by
        rw [List.map_append]
        exact hsplits.visit hsuffix (hkey.mp hmem)
      have howner : d.owner <:+ s.frames := hsuffix.trans hframes
      apply Ast.onRecursion_evaluateWith
      · intro m host hhost values
        exact hs.onRecursion_call howner hhost values
      · intro m hm
        have hlt := hlength ▸ length_dropKey_lt hmem
        have hread := ih _ hlt hgrown howner (n := m) ?_ rfl
        · simpa using hread
        · rintro e rfl hresolved
          exact hd.concat ⟨hm, hresolved⟩
    · rw [if_neg hmem, onRecursion_error]
      rintro _ ⟨⟩
      have hold : d.key ∈ trail.map (·.key) := not_not.mp (mt hkey.mpr hmem)
      obtain ⟨e, he, hsame⟩ := List.mem_map.mp hold
      obtain rfl : e = d := Definition.eq_of_key_eq
        (hd.reached e (by simp [he])).owner_suffix (hd.reached d (by simp)).owner_suffix hsame
      obtain ⟨before, after, rfl⟩ := List.append_of_mem he
      have hafter : e.key ∉ after.map (·.key) := by
        have hdistinct := hsplits.distinct
        rw [List.map_append, List.map_cons, List.nodup_append, List.nodup_cons] at hdistinct
        exact hdistinct.2.1.1
      rw [List.map_append, List.map_cons, Tracked.recursionChain_append_cons hafter]
      refine ⟨e :: after ++ [e], ?_⟩
      have hnames : (e.key :: after.map (·.key)).map (·.1) ++ [e.key.1] =
          (e :: after ++ [e]).map (·.name) := by
        simp [Definition.key, Function.comp_def]
      rw [hnames]
      exact hd.cycle
  · exact hother _ _ _

/-- With a depth above the number of variables, a reading that starts with any list of variables
ends and leaves that list, and with an empty one gives the value of the formula. An error of
recursion that no function and no failed name has brought in names a cycle of definitions. -/
theorem evaluation_ends (s : Scope α) (ast : Ast α) :
    (∀ reading : List VariableKey, reading.Nodup →
      ∀ depth, (formulaKeys s.frames).length < depth →
        ∃ result, (ast.evaluateTracked s depth).Returns reading result ∧
          (reading = [] → result = ast.evaluate s)) ∧
      (s.RaisesNoRecursion → ∀ names, ast.evaluate s = .error (.recursion names) →
        NamesCycle s ast names) := by
  constructor
  · intro reading hdistinct depth hdepth
    exact ast.returns_evaluateTracked s hdistinct hdepth
  · intro hs
    let trail : List (Definition α) := []
    have hsplits : Splits s.frames (trail.map (·.key)) (formulaKeys s.frames) :=
      ⟨List.nodup_nil, by simp [trail]⟩
    apply Ast.onRecursion_evaluateWith
    · intro n host hhost values
      exact hs.onRecursion_call List.suffix_rfl hhost values
    · intro n hn
      exact onRecursion_readName hs hsplits List.suffix_rfl fun d hd hresolved =>
        Definition.isTrail_singleton ⟨hd ▸ hn, hd ▸ hresolved⟩

/-- Two levels: `x` is `a + 1`, and around it `a` is `b + 1`, `b` is `-c` and `c` is `a`. -/
def loopScope : Scope Float :=
  let bind (ast : Ast Float) : Binding Float := ⟨.int, .bound (.formula ⟨ast, .int⟩)⟩
  let one : Ast Float := .literal (.int 1) ⟨4, 5⟩
  ⟨[{ bindings := [("x", bind (.binary .add (.name "a" ⟨0, 1⟩) one ⟨0, 5⟩))] },
    { bindings := [("a", bind (.binary .add (.name "b" ⟨0, 1⟩) one ⟨0, 5⟩)),
      ("b", bind (.unary .negate (.name "c" ⟨1, 2⟩) ⟨0, 2⟩)), ("c", bind (.name "a" ⟨0, 1⟩))] }]⟩

theorem raisesNoRecursion_loopScope : loopScope.RaisesNoRecursion where
  call_ne := by simp [loopScope]
  content_ne := by
    simp only [loopScope, List.forall_mem_cons]
    simp

theorem evaluate_loopScope :
    (Ast.name "x" ⟨0, 1⟩).evaluate loopScope = .error (.recursion ["a", "b", "c", "a"]) := by
  cbv

/-- From `x`, which is not on the cycle, the names go from `a` to `a`. -/
theorem evaluation_ends_loop :
    ((Ast.name "x" ⟨0, 1⟩).evaluateTracked loopScope 5).Returns []
        (.error (.recursion ["a", "b", "c", "a"])) ∧
      NamesCycle loopScope (.name "x" ⟨0, 1⟩) ["a", "b", "c", "a"] := by
  obtain ⟨hends, hnames⟩ := evaluation_ends loopScope (.name "x" ⟨0, 1⟩)
  obtain ⟨result, hreturns, hresult⟩ := hends [] List.nodup_nil 5 (by decide)
  constructor
  · rw [← evaluate_loopScope, ← hresult rfl]
    exact hreturns
  · exact hnames raisesNoRecursion_loopScope _ evaluate_loopScope

end PatternMarkup
