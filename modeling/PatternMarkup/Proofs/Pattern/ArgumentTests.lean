import Mathlib
import PatternMarkup.Number.Double
import PatternMarkup.Pattern.Bind.Document
import PatternMarkup.Proofs.Pattern.BindingOutcomes
/-!
The tests of arguments. A test that fails for the values of an instance makes an error, unless an
attribute that has a warning at its name stands where the error is told. The tests of the members of
groups play no part.
-/

namespace PatternMarkup

theorem eq_ok_of_toOption_eq_some {ε β : Type} {result : Except ε β} {x : β}
    (h : result.toOption = some x) : result = .ok x := by
  cases result with
  | error e => cases h
  | ok y => exact congrArg Except.ok (Option.some.inj h)

variable {α : Type} [Number α] {i : Instance α}

namespace Pattern

/-- The tests of a pattern's arguments are enforced: where one of them fails for the values of an
instance there is an error, unless the name of an attribute stands there. -/
theorem bindArguments_tests (p : Pattern α) (i : Instance α) :
    let bound := p.bindArguments i
    ∀ arg ∈ p.arguments, ∀ test, arg.test = some test →
      test.evaluate (bound.1.scope Canvas.declarations) = .ok false →
      (∀ a ∈ i.attributes, a.nameSpan ≠ arg.failureSpan i) →
      ∃ d ∈ bound.2.items, d.isError = true ∧ d.span = arg.failureSpan i := by
  intro bound arg harg test htest hfails hplace
  have hbound : bound = (p.valuesFrom i, .ofList (p.reports i)) := p.bindArguments_eq i
  rw [hbound] at hfails ⊢
  let failure : Diagnostic := .error .meaning (arg.failureSpan i) arg.failureMessage
  have hfailure : failure ∈ p.reports i := by
    refine List.mem_append_right _ (List.mem_append_right _ (List.mem_append_left _ ?_))
    refine List.mem_flatMap.mpr ⟨arg, harg, ?_⟩
    rw [Argument.testReports, htest, Option.elim_some, PatternMarkup.testReports, hfails]
    exact List.mem_singleton_self failure
  -- The first report at the place is kept. Only a warning could be none of the errors.
  obtain ⟨first, hfirst⟩ := Diagnostics.exists_firstAt hfailure
  have hspan : first.span = arg.failureSpan i := Diagnostics.span_of_firstAt hfirst
  refine ⟨first, Diagnostics.mem_items_ofList.mpr (hspan.symm ▸ hfirst), ?_, hspan⟩
  rcases isError_or_of_mem_reports (List.mem_of_find?_eq_some hfirst) with herror | ⟨a, ha, hat⟩
  · exact herror
  · exact absurd (hat.symm.trans hspan) (hplace a ha)

/-- For each argument of a pattern, whether its test fails for the values of an instance, and
whether no attribute has its name where that is told. -/
def failedTests (p : Pattern α) (i : Instance α) : List (Option Bool × Bool) :=
  p.arguments.map fun arg =>
    (arg.test.bind fun test =>
      (test.evaluate ((p.bindArguments i).1.scope Canvas.declarations)).toOption,
      decide (∀ a ∈ i.attributes, a.nameSpan ≠ arg.failureSpan i))

/-- An argument that has to be true. -/
def testSource : String :=
  "<pattern name='p' type='widget'><arg name='m' type='bool' test='\x7bm\x7d'/></pattern>"

theorem failedTests_false :
    (bindSource testSource {} : BoundDocument α).patterns.map
      (·.failedTests (({} : Instance α).withAttribute "m" "false")) = [[(some false, true)]] := by
  cbv

/-- The argument is given in an attribute. -/
theorem bindArguments_tests_false :
    let i := ({} : Instance Float).withAttribute "m" "false"
    ∃ p ∈ (bindSource testSource {} : BoundDocument Float).patterns, ∃ arg ∈ p.arguments,
      ∃ d ∈ (p.bindArguments i).2.items, d.isError = true ∧ d.span = arg.failureSpan i := by
  intro i
  obtain ⟨p, hp, hfailed⟩ := List.map_eq_singleton_iff.mp (failedTests_false (α := Float))
  obtain ⟨arg, harg, houtcome⟩ := List.map_eq_singleton_iff.mp hfailed
  obtain ⟨hfails, hplace⟩ := Prod.mk.inj houtcome
  obtain ⟨test, htest, hresult⟩ := Option.bind_eq_some_iff.mp hfails
  have hmem : arg ∈ p.arguments := harg ▸ List.mem_singleton_self arg
  refine ⟨p, hp ▸ List.mem_singleton_self p, arg, hmem, ?_⟩
  exact bindArguments_tests p i arg hmem test htest (eq_ok_of_toOption_eq_some hresult)
    (of_decide_eq_true hplace)

end Pattern

/-! ### The tests of members -/

/-- The argument with the tests of its members left out. -/
def Argument.withoutMemberTests : Argument α → Argument α
  | plain arg => plain arg
  | group g => group { g with members := g.members.map fun m => { m with test := none } }

/-- The pattern with the tests of members left out. -/
def Pattern.withoutMemberTests (p : Pattern α) : Pattern α :=
  { p with content := p.content.map fun content =>
    { content with arguments := content.arguments.map (·.withoutMemberTests) } }

theorem PlainArgument.itemReports_withoutTest (m : PlainArgument α) (name : String)
    (expected : Nat) (numbered : List (Nat × Nat × InstanceAttribute)) :
    { m with test := none }.itemReports name expected numbered =
      m.itemReports name expected numbered := by
  induction numbered generalizing expected with
  | nil => rfl
  | cons first rest ih => rw [itemReports, itemReports, ih]

theorem PlainArgument.reports_withoutTest (m : PlainArgument α) (name : String) :
    { m with test := none }.reports i name = m.reports i name := by
  unfold reports numberedReports
  simp only [itemReports_withoutTest]
  rfl

namespace Argument

variable (arg : Argument α)

omit [Number α] in
theorem readers_withoutMemberTests (g : ArgumentGroup α) :
    (group g).withoutMemberTests.readers =
      (group g).readers.map fun r => ⟨{ r.arg with test := none }, r.name⟩ := by
  simp only [withoutMemberTests, readers, List.map_map]
  rfl

theorem valueFrom?_withoutMemberTests :
    arg.withoutMemberTests.valueFrom? i = arg.valueFrom? i := by
  cases arg with
  | plain arg => rfl
  | group g =>
      have hreaders := readers_withoutMemberTests g
      rw [withoutMemberTests] at hreaders ⊢
      rw [valueFrom?, hreaders, List.mapM_map]
      rfl

theorem reports_withoutMemberTests : arg.withoutMemberTests.reports i = arg.reports i := by
  cases arg with
  | plain arg => rfl
  | group g =>
      rw [reports, readers_withoutMemberTests, List.flatMap_map]
      simp only [AttributeReader.reports, PlainArgument.reports_withoutTest]
      rfl

omit [Number α] in
theorem takes_withoutMemberTests : arg.withoutMemberTests.takes i = arg.takes i := by
  cases arg with
  | plain arg => rfl
  | group g =>
      rw [takes, readers_withoutMemberTests, List.flatMap_map]
      rfl

theorem testReports_withoutMemberTests (s : Scope α) :
    arg.withoutMemberTests.testReports i s = arg.testReports i s := by
  cases arg <;> rfl

omit [Number α] in
theorem insert_withoutMemberTests (vs : ArgumentValues α) (value : Option (ArgumentValue α)) :
    vs.insert arg.withoutMemberTests value = vs.insert arg value := by
  cases arg with
  | plain arg => rfl
  | group g =>
      have htype : (withoutMemberTests (group g)).bindingType = (group g).bindingType := by
        simp only [withoutMemberTests, bindingType, ArgumentGroup.type, List.map_map]
        rfl
      rw [ArgumentValues.insert, htype]
      rfl

end Argument

/-- Whatever a member's test asks for, nothing is given, and nothing reported, differently. -/
theorem Pattern.bindArguments_withoutMemberTests (p : Pattern α) (i : Instance α) :
    p.withoutMemberTests.bindArguments i = p.bindArguments i := by
  have harguments : p.withoutMemberTests.arguments =
      p.arguments.map (·.withoutMemberTests) := by
    unfold arguments withoutMemberTests
    cases p.content <;> rfl
  have hvalidations : p.withoutMemberTests.validations = p.validations := by
    unfold validations withoutMemberTests
    cases p.content <;> rfl
  have hvalues : p.withoutMemberTests.valuesFrom i = p.valuesFrom i := by
    rw [valuesFrom, harguments, List.foldl_map]
    simp only [Argument.valueFrom?_withoutMemberTests, Argument.insert_withoutMemberTests]
    rfl
  have htakes : p.withoutMemberTests.takes i = p.takes i := by
    rw [takes, harguments, List.flatMap_map]
    simp only [Argument.takes_withoutMemberTests]
    rfl
  have hreports : p.withoutMemberTests.reports i = p.reports i := by
    rw [reports, testReports, hvalues, htakes, harguments, hvalidations, List.flatMap_map,
      List.flatMap_map]
    simp only [Argument.reports_withoutMemberTests, Argument.testReports_withoutMemberTests]
    rfl
  rw [bindArguments_eq, bindArguments_eq, hvalues, hreports]

/-- What an instance gives the members of a pattern's groups: the name of each, its value as it is
written, and the outcome of the member's test for the value. -/
def Pattern.memberOutcomes (p : Pattern α) (i : Instance α) :
    List (String × Option String × Option Bool) :=
  p.arguments.flatMap fun arg =>
    match arg with
    | .plain _ => []
    | .group g => g.members.map fun m =>
        let value := m.valueFrom? i (memberAttribute g.name m.name)
        (m.name, (value.bind (·.constant?)).map (·.text),
          value.bind fun e => m.passes? e Canvas.declarations)

/-- A group whose member has a test. -/
def memberTestSource : String :=
  "<pattern name='p' type='widget'><args name='g'>" ++
    "<arg name='m' type='bool' test='\x7bm\x7d'/></args></pattern>"

theorem memberOutcomes_memberTestSource :
    let d : BoundDocument α := bindSource memberTestSource {}
    let i := ({} : Instance α).withAttribute "g-m" "false"
    d.diagnostics.items = [] ∧ d.patterns.map (fun p => (p.memberOutcomes i,
      ((p.bindArguments i).1.constant? "g").map (·.text), (p.bindArguments i).2.items)) =
        [([("m", some "false", some false)], some "\x7bm: false\x7d", [])] := by
  cbv

/-- A member of a group is given a value that its test rejects, and nothing is reported. -/
theorem bindArguments_ignores_member :
    let d : BoundDocument Float := bindSource memberTestSource {}
    let i := ({} : Instance Float).withAttribute "g-m" "false"
    d.diagnostics.items = [] ∧ d.patterns.map (fun p => (p.memberOutcomes i,
      ((p.bindArguments i).1.constant? "g").map (·.text), (p.bindArguments i).2.items)) =
        [([("m", some "false", some false)], some "\x7bm: false\x7d", [])] :=
  memberOutcomes_memberTestSource

end PatternMarkup
