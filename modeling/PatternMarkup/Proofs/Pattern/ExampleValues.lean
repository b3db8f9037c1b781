import PatternMarkup.Proofs.Pattern.ArgumentScopes
import PatternMarkup.Proofs.Pattern.ExampleInstances
/-!
Binding an instance made of examples. An argument is given its example back, and nothing is wrong
with it, if its attributes are its own and its example, if it is numbered, is written as the list
of the items that are given one by one.
-/

namespace PatternMarkup

open InstanceBinder

variable {α : Type} [Number α]

/-! ### Texts of constants -/

/-- A text is read as a constant of a type. -/
def IsReadAs (type : ValueType) (text : String) (v : Value α) : Prop :=
  readTyped { scope := Canvas.declarations } type (.ofString text 0) = .ok (.constant v)

variable {type : ValueType} {text : String} {v : Value α}

theorem IsReadAs.givenExpression?_eq (h : IsReadAs type text v) :
    givenExpression? type text = some (.constant v) := by
  rw [givenExpression?, h]
  rfl

theorem IsReadAs.faults_eq (a : InstanceAttribute) (h : IsReadAs type a.value v) :
    a.faults α type = [] := by
  rw [a.faults_eq_nil_iff, h.givenExpression?_eq]
  rfl

/-- The items of a list of constants are read as its constants. -/
theorem IsReadAs.items {w : WrittenValue α} (h : IsReadAs (.list type) w.text v) (hlisted : w.IsListed) :
    ∃ values, v = .list values ∧
      List.Forall₂ (fun item c => IsReadAs type item c) (w.items.map (·.text)) values := by
  obtain ⟨values, rfl, hvalues⟩ := readTyped_pieces h hlisted.unbraced
  refine ⟨values, rfl, ?_⟩
  have htexts : w.items.map (·.text) =
      (Fragment.ofString w.text 0).pieces.map (·.text) := by
    have hof := congrArg (List.map String.ofList) hlisted.items
    rw [List.map_map, List.map_map] at hof
    exact hof.symm
  rw [htexts, List.forall₂_map_left_iff]
  refine hvalues.imp fun piece c hread => ?_
  have hsame : SameChars piece (.ofString piece.text 0) := String.toList_ofList.symm
  obtain ⟨e, he, hform⟩ := (alike_readTyped _ type hsame).exists_of_ok hread
  cases e with
  | constant c' =>
      obtain rfl : c = c' := hform
      exact he
  | formula f => exact hform.elim

namespace PlainArgument

variable (arg : PlainArgument α) {i : Instance α} {name : String}

/-! ### Arguments that are given constants -/

theorem outcome_singular (hsource : arg.source = .singular) {a : InstanceAttribute}
    (ha : i.attribute? name = some a) (hread : IsReadAs arg.type a.value v) :
    arg.valueFrom? i name = some (.constant v) ∧ arg.reports i name = [] := by
  have hgiven := hread.givenExpression?_eq
  constructor
  · rw [valueFrom?, hsource]
    simp only [ha, Option.map_some, Option.elim_some, itemFrom?, hgiven, Option.some_or]
  · rw [reports, hsource]
    simp only [singularReports, ha, hread.faults_eq, hgiven, Option.isSome_some, if_true,
      List.append_nil]

theorem outcome_entry (hsource : arg.source = .entry)
    (hget : Fields.get? arg.name i.entries = some v) (hform : v.coerce arg.type = .ok v) :
    arg.valueFrom? i name = some (.constant v) ∧ arg.reports i name = [] := by
  constructor
  · rw [valueFrom?, hsource]
    simp only [hget, Option.elim_some, entryFrom?, hform]
    rfl
  · rw [reports, hsource]
    simp only [entryReports, hget, hform]

/-- Items that are numbered one after another are read without a report. -/
theorem itemReports_eq_nil (name : String) {first : Nat} {numbered : List (Nat × Nat × InstanceAttribute)}
    {values : List (Value α)}
    (hnumbers : numbered.map (·.1) = List.range' first numbered.length)
    (hfew : first + numbered.length ≤ 4294967296)
    (hread : List.Forall₂ (fun t c => IsReadAs arg.type t.2.2.value c) numbered values) :
    arg.itemReports name first numbered = [] := by
  induction hread generalizing first with
  | nil => rfl
  | @cons t c rest values hfirst _ ih =>
      obtain ⟨n, index, a⟩ := t
      rw [List.map_cons, List.length_cons, List.range'_succ, List.cons_eq_cons] at hnumbers
      obtain ⟨rfl, hnumbers⟩ := hnumbers
      rw [itemReports, if_neg (not_not_intro rfl), hfirst.faults_eq, List.nil_append,
        List.nil_append]
      cases rest with
      | nil => rfl
      | cons t' rest =>
          rw [List.length_cons, List.length_cons] at hfew
          have hnext : nextNumber n = n + 1 := if_pos (by omega)
          rw [hnext]
          exact ih hnumbers (by rw [List.length_cons]; omega)

/-- What the texts of constants give an argument. -/
theorem mapM_itemFrom? {texts : List String} {values : List (Value α)}
    (h : List.Forall₂ (fun text c => IsReadAs arg.type text c) texts values) :
    texts.mapM arg.itemFrom? = some (values.map .constant) := by
  induction h with
  | nil => rfl
  | cons hfirst _ ih =>
      rw [List.mapM_cons, ih, itemFrom?, hfirst.givenExpression?_eq]
      rfl

theorem listFrom?_of_constants {texts : List String} {values : List (Value α)}
    (h : List.Forall₂ (fun text c => IsReadAs arg.type text c) texts values)
    (hrequired : arg.isRequired = true → texts ≠ []) :
    arg.listFrom? texts = some (.constant (.list values)) := by
  have hvalues : ∀ values : List (Value α),
      (values.map (Expression.constant (α := α))).mapM Expression.constant? = some values := by
    intro values
    induction values with
    | nil => rfl
    | cons c rest ih =>
        rw [List.map_cons, List.mapM_cons, ih]
        rfl
  cases h with
  | nil => rw [listFrom?, if_neg fun hmust => hrequired hmust rfl]
  | cons hfirst hrest =>
      rw [listFrom?, arg.mapM_itemFrom? (.cons hfirst hrest), Option.map_some,
        Expression.ofItems, hvalues]

theorem outcome_numbered (hsource : arg.source = .numbered) {values : List (Value α)}
    (hnumbers : (numberedAttributes name i.attributes).map (·.1) =
      List.range' 1 (numberedAttributes name i.attributes).length)
    (hfew : (numberedAttributes name i.attributes).length < 4294967296)
    (hread : List.Forall₂ (fun text c => IsReadAs arg.type text c)
      ((numberedAttributes name i.attributes).map (·.2.2.value)) values)
    (hrequired : arg.isRequired = true → numberedAttributes name i.attributes ≠ []) :
    arg.valueFrom? i name = some (.constant (.list values)) ∧ arg.reports i name = [] := by
  rw [valueFrom?, reports, hsource]
  simp only [numberedReports]
  generalize numberedAttributes name i.attributes = numbered at *
  refine ⟨arg.listFrom?_of_constants hread fun hmust hnil =>
    hrequired hmust (List.map_eq_nil_iff.mp hnil), ?_⟩
  split
  · rw [missingReports, if_neg fun hmust => hrequired hmust rfl]
  · have hitems := arg.itemReports_eq_nil name hnumbers (by omega)
      (List.forall₂_map_left_iff.mp hread)
    rw [hitems, arg.mapM_itemFrom? hread]
    rfl

end PlainArgument

/-! ### Examples that are given back -/

section

variable {p : Pattern α} {arg : PlainArgument α} {w : WrittenValue α}

/-- An argument that finds its own example among the examples is given it, and nothing is reported
of the argument. -/
theorem PlainArgument.outcome_exampleInstance (hread : arg.IsRead)
    (hsound : ∀ arg ∈ p.arguments, arg.IsSound) (hnames : (p.arguments.map (·.name)).Nodup)
    (harg : .plain arg ∈ p.arguments) (hw : arg.sample = some w) {v : Value α}
    (hv : w.value = .constant v) (hapart : p.KeepsApart (.plain arg))
    (hlisted : arg.source = .numbered → w.IsListed ∧ (arg.isRequired = true → w.items ≠ [])) :
    arg.valueFrom? p.exampleInstance arg.name = some (.constant v) ∧
      arg.reports p.exampleInstance arg.name = [] := by
  have htext : IsReadAs arg.bindingType w.text v := by
    rw [IsReadAs, ← hv]
    exact hread.sample w hw
  unfold bindingType at htext
  cases hsource : arg.source with
  | singular =>
      rw [hsource] at htext
      exact arg.outcome_singular hsource (hapart.attribute?_exampleInstance hnames harg hsource hw)
        htext
  | entry =>
      have hform : v.coerce arg.bindingType = .ok v := (hsound _ harg).sample w hw v hv
      rw [bindingType, hsource] at hform
      exact arg.outcome_entry hsource
        (Pattern.get?_entries_exampleInstance hsound hnames harg hsource hw hv) hform
  | numbered =>
      rw [hsource] at htext
      obtain ⟨hlisted, hitems⟩ := hlisted hsource
      obtain ⟨values, rfl, hvalues⟩ := htext.items hlisted
      obtain ⟨hnumbers, htexts⟩ :=
        hapart.numberedAttributes_exampleInstance hnames harg hsource hw hlisted.few
      have hlength : (numberedAttributes arg.name p.exampleInstance.attributes).length =
          w.items.length := by
        simpa using congrArg List.length hnumbers
      refine arg.outcome_numbered hsource (hlength ▸ hnumbers) (hlength ▸ hlisted.few)
        (htexts ▸ hvalues) fun hmust hnil => hitems hmust ?_
      rw [hnil] at hlength
      exact List.length_eq_zero_iff.mp hlength.symm

/-- The test of an argument that holds its example reports nothing, if the test can be decided for
the example by itself. -/
theorem PlainArgument.testReports_eq_nil (hread : arg.IsRead) (hw : arg.sample = some w) {v : Value α}
    (hv : w.value = .constant v)
    (hdecided : arg.test.isSome = true → (arg.passes? w.value Canvas.declarations).isSome = true)
    {vs : ArgumentValues α} (hdistinct : (vs.values.map (·.1)).Nodup)
    (hget : vs.get? arg.var = some ⟨arg.bindingType, some (.single (.constant v))⟩)
    (i : Instance α) :
    (Argument.plain arg).testReports i (vs.scope Canvas.declarations) = [] := by
  rw [Argument.testReports, Argument.test]
  cases htest : arg.test with
  | none => rfl
  | some test =>
      rw [htest] at hdecided
      obtain ⟨b, hb⟩ := Option.isSome_iff_exists.mp (hdecided rfl)
      have hpasses : b = true := by
        have hkept := hread.passes w hw
        rw [hb] at hkept
        simpa using hkept
      rw [hpasses, hv] at hb
      have hvar : (vs.scope Canvas.declarations).lookup? arg.var =
          some ⟨arg.bindingType, .bound (.constant v)⟩ :=
        ArgumentValues.lookup?_scope hdistinct hget
      have hresult := PlainArgument.evaluate_of_passes? hread htest
        (vs.function?_scope Canvas.declarations) hvar hb
      rw [Option.elim_some, PatternMarkup.testReports, hresult]

end

namespace Pattern

/-- Binding the instance made of a pattern's examples gives an argument its constant example, and
every error that is reported is about another argument or a validation. The attributes of the
example have to be the argument's own; a numbered argument needs an example that is written as a
list; and the test of the argument, if it has one, has to be decided by the example alone. -/
theorem bindArguments_exampleInstance (doc : Document) (o : BindOptions) {p : Pattern α}
    (hp : p ∈ (doc.bind o : BoundDocument α).patterns) {arg : PlainArgument α}
    (harg : .plain arg ∈ p.arguments) {w : WrittenValue α} (hw : arg.sample = some w)
    {v : Value α} (hv : w.value.constant? = some v) (hapart : p.KeepsApart (.plain arg))
    (hlisted : arg.source = .numbered → w.IsListed ∧ (arg.isRequired = true → w.items ≠ []))
    (hdecided : arg.test.isSome = true →
      (arg.passes? w.value Canvas.declarations).isSome = true) :
    let i := p.exampleInstance
    let bound := p.bindArguments i
    bound.1.constant? arg.var = some v ∧
      ∀ d ∈ bound.2.items, d.isError = true →
        (∃ other ∈ p.arguments, other.name ≠ arg.name ∧
          (d ∈ other.reports i ∨ d ∈ other.testReports i (bound.1.scope Canvas.declarations))) ∨
        ∃ c ∈ p.validations, d ∈ PatternMarkup.testReports (bound.1.scope Canvas.declarations)
          c.test c.span c.span c.message := by
  intro i bound
  have hdeclared := doc.areDeclared_bind o hp
  have hnames := doc.names_distinct_bind o hp
  have hread := doc.isRead_bind o hp harg
  have hconstant : w.value = .constant v := eq_constant_of_constant?_eq_some hv
  obtain ⟨hvalue, hreports⟩ := PlainArgument.outcome_exampleInstance hread hdeclared.sound hnames
    harg hw hconstant hapart hlisted
  have hget : bound.1.get? arg.var = some ⟨arg.bindingType, some (.single (.constant v))⟩ := by
    have hbound : bound.1.get? (Argument.plain arg).var = _ :=
      get?_bindArguments hdeclared.distinct harg i
    rw [Argument.valueFrom?, hvalue] at hbound
    exact hbound
  have hdistinct : (bound.1.values.map (·.1)).Nodup :=
    (p.areOf_bindArguments_valueFrom? i hdeclared.distinct).names.nodup_iff.mpr hdeclared.distinct
  have hquiet : (Argument.plain arg).reports i = [] ∧
      (Argument.plain arg).testReports i (bound.1.scope Canvas.declarations) = [] := by
    refine ⟨?_, PlainArgument.testReports_eq_nil hread hw hconstant hdecided hdistinct hget i⟩
    rw [Argument.reports, Argument.readers, List.flatMap_singleton, AttributeReader.reports]
    exact hreports
  have hother : ∀ other ∈ p.arguments, ∀ d : Diagnostic,
      d ∈ other.reports i ∨ d ∈ other.testReports i (bound.1.scope Canvas.declarations) →
        other.name ≠ arg.name := by
    intro other hother d hd hname
    obtain rfl : other = .plain arg := List.inj_on_of_nodup_map hnames hother harg hname
    rw [hquiet.1, hquiet.2] at hd
    simp at hd
  refine ⟨?_, fun d hd herror => ?_⟩
  · rw [ArgumentValues.constant?, hget]
    rfl
  have hmade : d ∈ p.reports i := by
    rw [show bound = _ from p.bindArguments_eq i] at hd
    exact List.mem_of_find?_eq_some (Diagnostics.mem_items_ofList.mp hd)
  have hvalues : p.valuesFrom i = bound.1 := congrArg Prod.fst (p.bindArguments_eq i).symm
  rw [reports, hvalues] at hmade
  rcases List.mem_append.mp hmade with hargument | hmade
  · obtain ⟨other, hmem, hd⟩ := List.mem_flatMap.mp hargument
    exact .inl ⟨other, hmem, hother other hmem d (.inl hd), .inl hd⟩
  rcases List.mem_append.mp hmade with hstranger | htest
  · obtain ⟨index, a, -, -, rfl⟩ := mem_strangerReports.mp hstranger
    cases herror
  rcases List.mem_append.mp htest with htest | hvalidation
  · obtain ⟨other, hmem, hd⟩ := List.mem_flatMap.mp htest
    exact .inl ⟨other, hmem, hother other hmem d (.inr hd), .inr hd⟩
  · exact .inr (List.mem_flatMap.mp hvalidation)

/-- The items of a list, or another value, as they are written. -/
def itemTexts : Value α → List String
  | .list items => items.map (·.text)
  | v => [v.text]

/-- For each argument with a constant example: the text of the example and its items, whether the
argument's attributes are its own, the outcome of its test for the example, and the items that the
argument is given by the examples. -/
def exampleOutcomes (p : Pattern α) :
    List (String × List String × Bool × Option Bool × Option (List String)) :=
  p.arguments.filterMap fun arg =>
    match arg with
    | .plain arg => arg.sample.bind fun w => w.value.constant?.map fun v =>
        (w.text, itemTexts v, p.keepsApart (.plain arg),
          arg.passes? w.value Canvas.declarations,
          ((p.bindArguments p.exampleInstance).1.constant? arg.var).map itemTexts)
    | .group _ => none

/-- A numbered argument with a test, and one that is not numbered. -/
def exampleSource : String :=
  "<pattern name='p' type='widget'>" ++
    "<arg name='x' type='bool' numbered='true' example='true, no' test='\x7bx != []\x7d'/>" ++
    "<arg name='label' type='string' example='Save'/></pattern>"

theorem exampleOutcomes_plain :
    ((Document.ofSource exampleSource false).bind {} : BoundDocument α).patterns.map
      (·.exampleOutcomes) = [[
        ("true, no", ["true", "false"], true, some true, some ["true", "false"]),
        ("Save", ["Save"], true, none, some ["Save"])]] := by
  cbv

/-- The example of the numbered argument is given back. -/
theorem bindArguments_exampleInstance_plain :
    ∃ p ∈ ((Document.ofSource exampleSource false).bind {} : BoundDocument Float).patterns,
      ∃ arg, Argument.plain arg ∈ p.arguments ∧ ∃ v, itemTexts v = ["true", "false"] ∧
        (p.bindArguments p.exampleInstance).1.constant? arg.var = some v := by
  obtain ⟨p, hp, houtcomes⟩ :=
    List.map_eq_singleton_iff.mp (exampleOutcomes_plain (α := Float))
  have hmem := hp ▸ List.mem_singleton_self p
  have hfirst := houtcomes.symm ▸ List.mem_cons_self
  obtain ⟨arg, harg, hfirst⟩ := List.mem_filterMap.mp hfirst
  cases arg with
  | group g => cases hfirst
  | plain arg =>
      obtain ⟨w, hw, hfirst⟩ := Option.bind_eq_some_iff.mp hfirst
      obtain ⟨v, hv, hfirst⟩ := Option.map_eq_some_iff.mp hfirst
      obtain ⟨htext, hitems, hapart, hpasses, -⟩ : w.text = "true, no" ∧ itemTexts v = _ ∧
          p.keepsApart (.plain arg) = true ∧ arg.passes? w.value Canvas.declarations = some true ∧
          _ = _ := by
        simpa only [Prod.mk.injEq] using hfirst
      have hwritten : w.items = writtenItems 0 none 0 [] 0 "true, no".toList := by
        rw [WrittenValue.items, htext]
      have hlisted : w.IsListed := by
        refine WrittenValue.isListed_of_plain ?_ ?_ ?_
        · rw [htext]
          decide
        · rw [htext]
          decide
        · rw [hwritten]
          decide
      refine ⟨p, hmem, arg, harg, v, hitems, ?_⟩
      exact (bindArguments_exampleInstance _ {} hmem harg hw hv (keepsApart_iff.mp hapart)
        (fun _ => ⟨hlisted, fun _ => by rw [hwritten]; decide⟩)
        (fun _ => by rw [hpasses]; rfl)).1

/-- A list of two strings, each with a quote. -/
def quotedSource : String :=
  "<pattern name='p' type='widget'>" ++
    "<arg name='x' type='string' numbered='true' example='\"a, b\"'/></pattern>"

theorem exampleOutcomes_quoted :
    let d : BoundDocument α := bindSource quotedSource {}
    d.diagnostics.items = [] ∧ d.patterns.map (·.exampleOutcomes) =
      [[("\"a, b\"", ["\"a", "b\""], true, none, some ["\"a, b\""])]] := by
  cbv

/-- The example is read as two items and given back as one. -/
theorem bindArguments_exampleInstance_quoted :
    let d : BoundDocument Float := bindSource quotedSource {}
    d.diagnostics.items = [] ∧ d.patterns.map (·.exampleOutcomes) =
      [[("\"a, b\"", ["\"a", "b\""], true, none, some ["\"a, b\""])]] :=
  exampleOutcomes_quoted

end Pattern

end PatternMarkup
