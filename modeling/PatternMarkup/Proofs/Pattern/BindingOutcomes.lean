import PatternMarkup.Proofs.Markup.FirstReports
import PatternMarkup.Proofs.Pattern.ArgumentTypes
import PatternMarkup.Proofs.Pattern.NumberedAttributes
/-!
What an instance makes of a pattern's arguments, as a function of the instance: their values, the
reports in the order they are made, and the attributes that are taken. What was found before plays
no part in any of them. Whatever is reported is an error, or it is told at an attribute's name.
-/

namespace PatternMarkup

open InstanceBinder

/-- The reading with more reports made and more attributes taken. -/
def InstanceReading.extend (r : InstanceReading) (made : List Diagnostic) (taken : List Nat) :
    InstanceReading :=
  ⟨r.diagnostics.pushAll made, taken.reverse ++ r.taken⟩

theorem InstanceReading.extend_append (r : InstanceReading) (made later : List Diagnostic)
    (taken after : List Nat) :
    r.extend (made ++ later) (taken ++ after) = (r.extend made taken).extend later after := by
  simp [extend, Diagnostics.pushAll]

namespace InstanceBinder

variable {β γ : Type} {x : β} {y : γ} {made later : List Diagnostic} {taken after : List Nat}

theorem bind_apply (step : InstanceBinder β) (next : β → InstanceBinder γ) (r : InstanceReading) :
    (step >>= next) r = next (step r).1 (step r).2 := rfl

/-- Whatever was found before, a step has a result, makes some reports and takes some attributes. -/
def Yields (step : InstanceBinder β) (x : β) (made : List Diagnostic) (taken : List Nat) : Prop :=
  ∀ r, step r = (x, r.extend made taken)

theorem Yields.pure : Yields (Pure.pure x) x [] [] := fun _ => rfl

theorem yields_report (d : Diagnostic) : Yields (report d) () [d] [] := fun _ => rfl

theorem yields_take (index : Nat) : Yields (take index) () [] [index] := fun _ => rfl

theorem Yields.bind {step : InstanceBinder β} {next : β → InstanceBinder γ}
    (h : Yields step x made taken) (hnext : Yields (next x) y later after) :
    Yields (step >>= next) y (made ++ later) (taken ++ after) := by
  intro r
  rw [bind_apply, h r, hnext, InstanceReading.extend_append]

/-- A step that finds nothing more after another one. -/
theorem Yields.map {step : InstanceBinder β} (h : Yields step x made taken) (f : β → γ) :
    Yields (step >>= fun x => Pure.pure (f x)) (f x) made taken := by
  have hmap : Yields (step >>= fun x => Pure.pure (f x)) (f x) (made ++ []) (taken ++ []) :=
    h.bind .pure
  rwa [List.append_nil, List.append_nil] at hmap

theorem Yields.gives {step : InstanceBinder β} (h : Yields step x made taken) :
    Gives step (· = x) := by
  intro r
  rw [h r]

/-- A step that only reports before another one. -/
theorem Yields.after_report {step : InstanceBinder β} (d : Diagnostic)
    (h : Yields step x made taken) : Yields (report d >>= fun _ => step) x (d :: made) taken :=
  (yields_report d).bind h

theorem Yields.forM {xs : List β} {step : β → InstanceBinder Unit} {made : β → List Diagnostic}
    (h : ∀ x ∈ xs, Yields (step x) () (made x) []) :
    Yields (xs.forM step) () (xs.flatMap made) [] := by
  induction xs with
  | nil => exact .pure
  | cons x xs ih =>
      obtain ⟨hfirst, hrest⟩ := List.forall_mem_cons.mp h
      exact hfirst.bind (ih hrest)

end InstanceBinder

variable {α : Type} [Number α]

/-! ### Single attributes -/

/-- What a text gives an argument of a type: an expression, unless it has faults. -/
def givenExpression? (type : ValueType) (text : String) : Option (Expression α (Value α)) :=
  let s : Scope α := Canvas.declarations
  match readTyped { scope := s } type (.ofString text 0) with
  | .error _ => none
  | .ok e =>
      match (e.formula?.map fun f => f.ast.checkAs s type).getD [] with
      | [] => some e
      | _ :: _ => none

/-- What is reported of the value of an attribute. -/
def InstanceAttribute.faults (α : Type) [Number α] (a : InstanceAttribute) (type : ValueType) :
    List Diagnostic :=
  let s : Scope α := Canvas.declarations
  match readTyped { scope := s } type (.ofString a.value 0) with
  | .error e =>
      [(Diagnostic.error .meaning (a.subSpan e.range)
        ("invalid value for '" ++ a.name ++ "'")).because e.message]
  | .ok e =>
      match (e.formula?.map fun f => f.ast.checkAs s type).getD [] with
      | [] => []
      | first :: _ => [.error .meaning (a.subSpan first.range) first.fault.message]

theorem yields_read (a : InstanceAttribute) (type : ValueType) :
    Yields (a.read (α := α) type) (givenExpression? type a.value) (a.faults α type) [] := by
  unfold InstanceAttribute.read givenExpression? InstanceAttribute.faults
  simp only
  cases readTyped (α := α) { scope := Canvas.declarations } type (.ofString a.value 0) with
  | error e => exact .after_report _ .pure
  | ok e =>
      simp only
      cases (e.formula?.map fun f => f.ast.checkAs Canvas.declarations type).getD [] with
      | nil => exact .pure
      | cons first more => exact .after_report _ .pure

/-- A text that gives nothing is reported. -/
theorem InstanceAttribute.faults_eq_nil_iff (a : InstanceAttribute) (type : ValueType) :
    a.faults α type = [] ↔ (givenExpression? (α := α) type a.value).isSome := by
  unfold faults givenExpression?
  simp only
  cases readTyped (α := α) { scope := Canvas.declarations } type (.ofString a.value 0) with
  | error e => simp
  | ok e =>
      simp only
      cases (e.formula?.map fun f => f.ast.checkAs Canvas.declarations type).getD [] <;> simp

omit [Number α] in
theorem Instance.findIdx?_isSome (i : Instance α) (name : String) :
    (i.attributes.findIdx? (·.name == name)).isSome = (i.attribute? name).isSome := by
  rw [List.findIdx?_isSome, attribute?, List.isSome_find?]

/-! ### Arguments with a value of their own -/

namespace PlainArgument

/-- The default of an argument. -/
def fallbackValue? (arg : PlainArgument α) : Option (Expression α (Value α)) :=
  arg.fallback.map (·.value)

/-- The report that an argument is left without a value. -/
def unboundReport (arg : PlainArgument α) : Diagnostic :=
  .error .meaning arg.span ("argument '" ++ arg.name ++ "' has no usable value and no default")

/-- What is reported after a wrong value: that nothing stands in for it. -/
def fallBackReports (arg : PlainArgument α) : List Diagnostic :=
  if arg.fallback.isNone then [arg.unboundReport] else []

/-- What is reported if there is no value: that it is missing, if it is required. -/
def missingReports (arg : PlainArgument α) (name : String) : List Diagnostic :=
  if arg.isRequired then
    [.error .meaning arg.span ("missing required argument '" ++ name ++ "'")]
  else []

/-- What a text gives an argument, or one item of it: its default if the text has faults. -/
def itemFrom? (arg : PlainArgument α) (text : String) : Option (Expression α (Value α)) :=
  (givenExpression? arg.type text).or arg.fallbackValue?

/-- What the texts of numbered attributes give an argument. -/
def listFrom? (arg : PlainArgument α) (texts : List String) : Option (Expression α (Value α)) :=
  match texts with
  | [] => if arg.isRequired then none else some (.constant (.list []))
  | _ :: _ => (texts.mapM arg.itemFrom?).map (.ofItems arg.type)

/-- What an entry gives an argument. -/
def entryFrom? (arg : PlainArgument α) (v : Value α) : Option (Expression α (Value α)) :=
  ((v.coerce arg.type).toOption.map .constant).or arg.fallbackValue?

/-- What an instance gives an argument under a name. -/
def valueFrom? (arg : PlainArgument α) (i : Instance α) (name : String) :
    Option (Expression α (Value α)) :=
  match arg.source with
  | .singular => ((i.attribute? name).map (·.value)).elim arg.fallbackValue? arg.itemFrom?
  | .numbered => arg.listFrom? ((numberedAttributes name i.attributes).map (·.2.2.value))
  | .entry => (Fields.get? arg.name i.entries).elim arg.fallbackValue? arg.entryFrom?

/-- What is reported of the attribute of a name. -/
def singularReports (arg : PlainArgument α) (i : Instance α) (name : String) : List Diagnostic :=
  match i.attribute? name with
  | some a =>
      a.faults α arg.type ++
        if (givenExpression? (α := α) arg.type a.value).isSome then [] else arg.fallBackReports
  | none => arg.missingReports name

/-- The report of a numbered attribute that does not come next. -/
def gapReport (name : String) (expected : Nat) (a : InstanceAttribute) : Diagnostic :=
  .warning .meaning a.nameSpan
    ("'" ++ a.name ++ "' skips '" ++ name ++ toString expected ++ "'; the gap is ignored")

/-- What is reported of numbered attributes, each by itself. -/
def itemReports (arg : PlainArgument α) (name : String) (expected : Nat) :
    List (Nat × Nat × InstanceAttribute) → List Diagnostic
  | [] => []
  | (n, _, a) :: rest =>
      (if n ≠ expected then [gapReport name expected a] else []) ++
        (a.faults α arg.type ++ arg.itemReports name (nextNumber n) rest)

/-- What is reported of the numbered attributes of a name. -/
def numberedReports (arg : PlainArgument α) (i : Instance α) (name : String) : List Diagnostic :=
  match numberedAttributes name i.attributes with
  | [] => arg.missingReports (name ++ "1")
  | numbered =>
      arg.itemReports name 1 numbered ++
        if ((numbered.map (·.2.2.value)).mapM arg.itemFrom?).isSome then [] else [arg.unboundReport]

/-- What is reported of the entry of an argument. -/
def entryReports (arg : PlainArgument α) (i : Instance α) : List Diagnostic :=
  match Fields.get? arg.name i.entries with
  | none => arg.missingReports arg.name
  | some v =>
      match v.coerce arg.type with
      | .ok _ => []
      | .error e =>
          (Diagnostic.error .meaning i.span
            ("entry '" ++ arg.name ++ "' does not fit its argument")).because e.message ::
              arg.fallBackReports

/-- What is reported of an argument that is given under a name. -/
def reports (arg : PlainArgument α) (i : Instance α) (name : String) : List Diagnostic :=
  match arg.source with
  | .singular => arg.singularReports i name
  | .numbered => arg.numberedReports i name
  | .entry => arg.entryReports i

/-- The positions of the attributes that an argument takes if it is given under a name. -/
def takes (arg : PlainArgument α) (i : Instance α) (name : String) : List Nat :=
  match arg.source with
  | .singular => (i.attributes.findIdx? (·.name == name)).toList
  | .numbered => (numberedAttributes name i.attributes).map (·.2.1)
  | .entry => []

variable (arg : PlainArgument α)

omit [Number α] in
theorem yields_fallBack :
    Yields arg.fallBack (arg.fallbackValue?.map .single) arg.fallBackReports [] := by
  unfold fallBack fallbackValue? fallBackReports
  cases arg.fallback with
  | some w => exact .pure
  | none => exact .after_report _ .pure

omit [Number α] in
theorem yields_missing (name : String) :
    Yields (arg.missing name) (arg.fallbackValue?.map .single) (arg.missingReports name) [] := by
  unfold missing fallbackValue? missingReports isRequired
  cases arg.fallback with
  | some w =>
      rw [Option.isNone_some, Bool.and_false, if_neg Bool.false_ne_true]
      exact .pure
  | none =>
      cases arg.optional with
      | true => exact .pure
      | false => exact .after_report _ .pure

theorem yields_bindSingular (i : Instance α) (name : String) :
    Yields (arg.bindSingular i name)
      ((((i.attribute? name).map (·.value)).elim arg.fallbackValue? arg.itemFrom?).map .single)
      (arg.singularReports i name) (i.attributes.findIdx? (·.name == name)).toList := by
  have hfound := i.findIdx?_isSome name
  unfold bindSingular singularReports
  cases hindex : i.attributes.findIdx? (·.name == name) with
  | none =>
      rw [hindex, Option.isSome_none, eq_comm, Option.isSome_eq_false_iff,
        Option.isNone_iff_eq_none] at hfound
      rw [hfound]
      exact yields_missing arg name
  | some index =>
      rw [hindex, Option.isSome_some, eq_comm] at hfound
      obtain ⟨a, ha⟩ := Option.isSome_iff_exists.mp hfound
      rw [ha]
      refine (yields_take index).bind ((yields_read a arg.type).bind ?_)
      simp only [Option.map_some, Option.elim_some, itemFrom?]
      cases givenExpression? (α := α) arg.type a.value with
      | none => exact yields_fallBack arg
      | some e => exact .pure

theorem yields_bindItems (name : String) (expected : Nat)
    (numbered : List (Nat × Nat × InstanceAttribute)) :
    Yields (arg.bindItems name expected numbered) ((numbered.map (·.2.2.value)).map arg.itemFrom?)
      (arg.itemReports name expected numbered) (numbered.map (·.2.1)) := by
  induction numbered generalizing expected with
  | nil => exact .pure
  | cons first rest ih =>
      obtain ⟨n, index, a⟩ := first
      have hitem : Yields (do
            let item ← a.read arg.type
            return item.or (arg.fallback.map (·.value)) ::
              (← arg.bindItems name (nextNumber n) rest))
          ((((n, index, a) :: rest).map (·.2.2.value)).map arg.itemFrom?)
          (a.faults α arg.type ++ arg.itemReports name (nextNumber n) rest)
          (rest.map (·.2.1)) :=
        (yields_read a arg.type).bind ((ih (nextNumber n)).map _)
      unfold bindItems itemReports
      refine (yields_take index).bind ?_
      by_cases hgap : n ≠ expected
      · simp only [if_pos hgap]
        exact .after_report _ hitem
      · simp only [if_neg hgap]
        exact Yields.pure.bind hitem

theorem yields_bindNumbered (i : Instance α) (name : String) :
    Yields (arg.bindNumbered i name)
      ((arg.listFrom? ((numberedAttributes name i.attributes).map (·.2.2.value))).map .single)
      (arg.numberedReports i name) ((numberedAttributes name i.attributes).map (·.2.1)) := by
  unfold bindNumbered numberedReports
  cases hnumbered : numberedAttributes name i.attributes with
  | nil =>
      have hmissing := yields_missing arg (name ++ "1")
      rw [List.map_nil, listFrom?]
      by_cases hrequired : arg.isRequired = true
      · rw [fallbackValue?, fallback_of_isRequired hrequired] at hmissing
        simp only [hrequired, if_true]
        exact hmissing
      · simp only [missingReports, if_neg hrequired]
        exact .pure
  | cons first rest =>
      rw [← List.append_nil (List.map (·.2.1) (first :: rest))]
      refine (yields_bindItems arg name 1 (first :: rest)).bind ?_
      rw [List.mapM_map, Function.id_comp, List.map_cons, listFrom?]
      cases (first.2.2.value :: rest.map (·.2.2.value)).mapM arg.itemFrom? with
      | none => exact .after_report _ .pure
      | some values => exact .pure

theorem yields_bindEntry (i : Instance α) :
    Yields (arg.bindEntry i) (((Fields.get? arg.name i.entries).elim
      arg.fallbackValue? arg.entryFrom?).map .single) (arg.entryReports i) [] := by
  unfold bindEntry entryReports
  cases Fields.get? arg.name i.entries with
  | none => exact yields_missing arg arg.name
  | some v =>
      simp only [Option.elim_some, entryFrom?]
      cases v.coerce arg.type with
      | ok w => exact .pure
      | error e => exact .after_report _ (yields_fallBack arg)

/-- Binding an argument: its value, what is reported of it, and what it takes. -/
theorem yields_bind (i : Instance α) (name : String) :
    Yields (arg.bind i name) ((arg.valueFrom? i name).map .single) (arg.reports i name)
      (arg.takes i name) := by
  unfold bind valueFrom? reports takes
  cases arg.source with
  | singular => exact yields_bindSingular arg i name
  | numbered => exact yields_bindNumbered arg i name
  | entry => exact yields_bindEntry arg i

end PlainArgument

/-! ### Arguments of either kind -/

/-- An argument, or a member of a group, with the name it is given under. -/
structure AttributeReader (α : Type) where
  arg : PlainArgument α
  name : String

namespace AttributeReader

/-- What an instance gives. -/
def valueFrom? (i : Instance α) (r : AttributeReader α) : Option (Expression α (Value α)) :=
  r.arg.valueFrom? i r.name

/-- What is reported while the value is read. -/
def reports (i : Instance α) (r : AttributeReader α) : List Diagnostic := r.arg.reports i r.name

/-- The positions of the attributes that are taken. -/
def takes (i : Instance α) (r : AttributeReader α) : List Nat := r.arg.takes i r.name

end AttributeReader

theorem yields_bindMembers (i : Instance α) (name : String) (members : List (PlainArgument α)) :
    let readers := members.map fun m => AttributeReader.mk m (memberAttribute name m.name)
    Yields (bindMembers i name members)
      (readers.map fun r => (r.valueFrom? i).map fun e => (r.arg.var, e))
      (readers.flatMap (·.reports i)) (readers.flatMap (·.takes i)) := by
  induction members with
  | nil => exact .pure
  | cons m rest ih =>
      unfold bindMembers
      refine (m.yields_bind i _).bind ?_
      simp only [List.map_cons, AttributeReader.valueFrom?]
      cases m.valueFrom? i (memberAttribute name m.name) with
      | none => exact ih.map _
      | some e => exact ih.map _

namespace Argument

/-- What reads attributes for an argument: the argument itself, or the members of a group. -/
def readers : Argument α → List (AttributeReader α)
  | plain arg => [⟨arg, arg.name⟩]
  | group g => g.members.map fun m => ⟨m, memberAttribute g.name m.name⟩

/-- What an instance gives an argument. A group needs a value for each member. -/
def valueFrom? (i : Instance α) : Argument α → Option (ArgumentValue α)
  | plain arg => (arg.valueFrom? i arg.name).map .single
  | group g =>
      ((readers (group g)).mapM fun r : AttributeReader α =>
        (r.valueFrom? i).map fun e => (r.arg.var, e)).map fun fields => .group (Fields.ofList fields)

/-- What is reported of an argument while it is given its value. -/
def reports (i : Instance α) (arg : Argument α) : List Diagnostic :=
  arg.readers.flatMap (·.reports i)

/-- The positions of the attributes that an argument takes. -/
def takes (i : Instance α) (arg : Argument α) : List Nat := arg.readers.flatMap (·.takes i)

theorem yields_bind (arg : Argument α) (i : Instance α) :
    Yields (arg.bind i) (arg.valueFrom? i) (arg.reports i) (arg.takes i) := by
  cases arg with
  | plain arg =>
      rw [reports, takes, readers, List.flatMap_singleton, List.flatMap_singleton]
      exact arg.yields_bind i arg.name
  | group g =>
      have hfields := (yields_bindMembers i g.name g.members).map
        fun fields => (fields.mapM id).map fun fields => ArgumentValue.group (Fields.ofList fields)
      rw [List.mapM_map] at hfields
      unfold bind
      exact hfields

/-- An argument is given the same by two instances that give its readers the same. -/
theorem valueFrom?_congr {arg : Argument α} {i i' : Instance α}
    (h : ∀ r ∈ arg.readers, r.valueFrom? i = r.valueFrom? i') :
    arg.valueFrom? i = arg.valueFrom? i' := by
  cases arg with
  | plain arg => exact congrArg (Option.map ArgumentValue.single) (h _ (List.mem_singleton_self _))
  | group g =>
      have hfields : (readers (group g)).map
            (fun r => (r.valueFrom? i).map fun e => (r.arg.var, e)) =
          (readers (group g)).map fun r => (r.valueFrom? i').map fun e => (r.arg.var, e) :=
        List.map_congr_left fun r hr => by rw [h r hr]
      have hgroup : ∀ i : Instance α, valueFrom? i (group g) =
          (((readers (group g)).map fun r : AttributeReader α =>
            (r.valueFrom? i).map fun e => (r.arg.var, e)).mapM id).map
              fun fields => .group (Fields.ofList fields) := by
        intro i
        rw [List.mapM_map]
        rfl
      rw [hgroup, hgroup, hfields]

end Argument

/-! ### Patterns -/

theorem yields_bindAll (i : Instance α) (vs : ArgumentValues α) (arguments : List (Argument α)) :
    Yields (bindAll i vs arguments)
      (arguments.foldl (fun vs arg => vs.insert arg (arg.valueFrom? i)) vs)
      (arguments.flatMap (·.reports i)) (arguments.flatMap (·.takes i)) := by
  induction arguments generalizing vs with
  | nil => exact .pure
  | cons arg rest ih =>
      unfold bindAll
      exact (arg.yields_bind i).bind (ih _)

/-- The report of an attribute that belongs to no argument. -/
def strangerReport (pattern : String) (a : InstanceAttribute) : Diagnostic :=
  .warning .meaning a.nameSpan
    ("'" ++ a.name ++ "' is not an argument of pattern '" ++ pattern ++ "'")

/-- What is reported of the attributes that are not at the given positions. -/
def strangerReports (pattern : String) (taken : List Nat) (attributes : List InstanceAttribute) :
    List Diagnostic :=
  (attributes.mapIdx fun index a => (index, a)).flatMap fun (index, a) =>
    if index ∈ taken then [] else [strangerReport pattern a]

theorem mem_strangerReports {pattern : String} {taken : List Nat}
    {attributes : List InstanceAttribute} {d : Diagnostic} :
    d ∈ strangerReports pattern taken attributes ↔
      ∃ index a, attributes[index]? = some a ∧ index ∉ taken ∧ d = strangerReport pattern a := by
  rw [strangerReports, List.mem_flatMap]
  constructor
  · rintro ⟨⟨index, a⟩, hmem, h⟩
    obtain ⟨k, hk, hpair⟩ := List.mem_mapIdx.mp hmem
    obtain ⟨rfl, rfl⟩ := Prod.mk.inj hpair
    simp only at h
    split at h
    · cases h
    · next hindex => exact ⟨k, _, List.getElem?_eq_getElem hk, hindex, List.mem_singleton.mp h⟩
  · rintro ⟨index, a, ha, hindex, rfl⟩
    obtain ⟨hlt, rfl⟩ := List.getElem?_eq_some_iff.mp ha
    refine ⟨_, List.mem_mapIdx.mpr ⟨index, hlt, rfl⟩, ?_⟩
    simp only [if_neg hindex]
    exact List.mem_singleton_self _

omit [Number α] in
theorem reportStrangers_eq (pattern : String) (i : Instance α) (r : InstanceReading) :
    reportStrangers pattern i r =
      ((), r.extend (strangerReports pattern r.taken i.attributes) []) := by
  have hforM : Yields ((i.attributes.mapIdx fun index a => (index, a)).forM fun (index, a) => do
      unless r.taken.contains index do report (strangerReport pattern a)) ()
      (strangerReports pattern r.taken i.attributes) [] := by
    refine .forM fun ⟨index, a⟩ _ => ?_
    by_cases htaken : index ∈ r.taken
    · simp only [htaken, List.contains_iff_mem.mpr htaken, if_true]
      exact .pure
    · simp only [htaken, List.contains_eq_mem, decide_false, if_false]
      exact yields_report _
  exact hforM r

/-- What is reported of a test in a scope. One that needs a missing value is passed over. -/
def testReports (s : Scope α) (test : Expression α Bool) (declared failed : Span)
    (message : String) : List Diagnostic :=
  match test.evaluate s with
  | .ok true => []
  | .ok false => [.error .meaning failed message]
  | .error (.unbound _) => []
  | .error e => [.error .evaluation declared e.message]

theorem yields_runTest (s : Scope α) (test : Expression α Bool) (declared failed : Span)
    (message : String) : Yields (runTest s test declared failed message) ()
      (testReports s test declared failed message) [] := by
  unfold runTest testReports
  cases test.evaluate s with
  | ok passed =>
      cases passed with
      | true => exact .pure
      | false => exact yields_report _
  | error e =>
      cases e with
      | unbound => exact .pure
      | _ => exact yields_report _

/-- Where an instance gives an argument, if it does so by an attribute of its name; else where the
argument is declared. -/
def Argument.failureSpan (arg : Argument α) (i : Instance α) : Span :=
  ((i.attribute? arg.name).map (·.valueSpan)).getD arg.span

/-- What is reported of an argument's own test. -/
def Argument.testReports (arg : Argument α) (i : Instance α) (s : Scope α) : List Diagnostic :=
  arg.test.elim [] fun test =>
    PatternMarkup.testReports s test arg.span (arg.failureSpan i) arg.failureMessage

namespace Pattern

/-- What is reported of the tests of arguments and of the validations. -/
def testReports (p : Pattern α) (i : Instance α) (s : Scope α) : List Diagnostic :=
  p.arguments.flatMap (·.testReports i s) ++
    p.validations.flatMap fun v => PatternMarkup.testReports s v.test v.span v.span v.message

theorem yields_runTests (p : Pattern α) (i : Instance α) (s : Scope α) :
    Yields (runTests p i s) () (p.testReports i s) [] := by
  unfold runTests
  refine Yields.bind (.forM fun arg _ => ?_) (.forM fun v _ => yields_runTest s _ _ _ _)
  unfold Argument.testReports
  split
  · next test htest =>
      rw [htest]
      exact yields_runTest s test _ _ _
  · next htest =>
      rw [htest]
      exact .pure

/-- What an instance gives the arguments of a pattern. -/
def valuesFrom (p : Pattern α) (i : Instance α) : ArgumentValues α :=
  p.arguments.foldl (fun vs arg => vs.insert arg (arg.valueFrom? i)) {}

/-- The positions of the attributes that some argument takes. -/
def takes (p : Pattern α) (i : Instance α) : List Nat := p.arguments.flatMap (·.takes i)

/-- What is reported of an instance, in the order it is: of the arguments, of attributes that belong
to none of them, and of tests. -/
def reports (p : Pattern α) (i : Instance α) : List Diagnostic :=
  p.arguments.flatMap (·.reports i) ++
    (strangerReports p.qualifiedName (p.takes i) i.attributes ++
      p.testReports i ((p.valuesFrom i).scope Canvas.declarations))

/-- What binding an instance comes to. -/
theorem bindArguments_eq (p : Pattern α) (i : Instance α) :
    p.bindArguments i = (p.valuesFrom i, .ofList (p.reports i)) := by
  let bound : InstanceReading :=
    ({} : InstanceReading).extend (p.arguments.flatMap (·.reports i)) (p.takes i)
  have hbound : bindAll i {} p.arguments {} = (p.valuesFrom i, bound) :=
    yields_bindAll i {} p.arguments {}
  have hstrangers : reportStrangers p.qualifiedName i bound =
      ((), bound.extend (strangerReports p.qualifiedName (p.takes i) i.attributes) []) := by
    rw [reportStrangers_eq]
    simp [bound, strangerReports, InstanceReading.extend]
  have htests := (p.yields_runTests i ((p.valuesFrom i).scope Canvas.declarations)).map
    fun _ => p.valuesFrom i
  have hrun : (do
      let vs ← bindAll i {} p.arguments
      reportStrangers p.qualifiedName i
      runTests p i (vs.scope Canvas.declarations)
      return vs : InstanceBinder (ArgumentValues α)) {} =
        (p.valuesFrom i, ({} : InstanceReading).extend (p.reports i) (p.takes i ++ ([] ++ []))) := by
    rw [bind_apply, hbound, reports, InstanceReading.extend_append, InstanceReading.extend_append]
    simp only
    rw [bind_apply, hstrangers]
    exact htests _
  exact congrArg (fun result => (result.1, result.2.diagnostics)) hrun

/-- The variable of each argument holds what the instance gives the argument. -/
theorem areOf_bindArguments_valueFrom? (p : Pattern α) (i : Instance α)
    (hdistinct : (p.arguments.map (·.var)).Nodup) :
    (p.bindArguments i).1.AreOf (fun arg value => arg.valueFrom? i = value) p.arguments := by
  refine p.areOf_bindArguments i hdistinct fun arg _ r => ?_
  rw [arg.yields_bind i r]

theorem get?_bindArguments {p : Pattern α} (hdistinct : (p.arguments.map (·.var)).Nodup)
    {arg : Argument α} (harg : arg ∈ p.arguments) (i : Instance α) :
    (p.bindArguments i).1.get? arg.var = some ⟨arg.bindingType, arg.valueFrom? i⟩ := by
  obtain ⟨value, hget, hvalue⟩ := (p.areOf_bindArguments_valueFrom? i hdistinct).values arg harg
  rw [hget, hvalue]

end Pattern

/-! ### Errors and warnings -/

variable {i : Instance α} {d : Diagnostic}

/-- A report is an error, or it is about a gap before a numbered attribute. -/
def IsErrorOrGap (i : Instance α) (d : Diagnostic) : Prop :=
  d.isError = true ∨
    ∃ a ∈ i.attributes, ∃ name expected, d = PlainArgument.gapReport name expected a

theorem isError_of_mem_faults {a : InstanceAttribute} {type : ValueType}
    (h : d ∈ a.faults α type) : d.isError = true := by
  unfold InstanceAttribute.faults at h
  simp only at h
  split at h
  · rw [List.mem_singleton.mp h]
    rfl
  · split at h
    · cases h
    · rw [List.mem_singleton.mp h]
      rfl

namespace PlainArgument

variable {arg : PlainArgument α}

omit [Number α] in
theorem isError_of_mem_fallBackReports (h : d ∈ arg.fallBackReports) : d.isError = true := by
  unfold fallBackReports at h
  split at h
  · rw [List.mem_singleton.mp h]
    rfl
  · cases h

omit [Number α] in
theorem isError_of_mem_missingReports {name : String} (h : d ∈ arg.missingReports name) :
    d.isError = true := by
  unfold missingReports at h
  split at h
  · rw [List.mem_singleton.mp h]
    rfl
  · cases h

theorem isError_of_mem_singularReports {name : String} (h : d ∈ arg.singularReports i name) :
    d.isError = true := by
  unfold singularReports at h
  split at h
  · rcases List.mem_append.mp h with h | h
    · exact isError_of_mem_faults h
    · split at h
      · cases h
      · exact isError_of_mem_fallBackReports h
  · exact isError_of_mem_missingReports h

theorem isError_of_mem_entryReports (h : d ∈ arg.entryReports i) : d.isError = true := by
  unfold entryReports at h
  split at h
  · exact isError_of_mem_missingReports h
  · split at h
    · cases h
    · rcases List.mem_cons.mp h with rfl | h
      · rfl
      · exact isError_of_mem_fallBackReports h

theorem isErrorOrGap_of_mem_itemReports {name : String} {expected : Nat}
    {numbered : List (Nat × Nat × InstanceAttribute)}
    (hnumbered : ∀ t ∈ numbered, t.2.2 ∈ i.attributes)
    (h : d ∈ arg.itemReports name expected numbered) : IsErrorOrGap i d := by
  induction numbered generalizing expected with
  | nil => cases h
  | cons first rest ih =>
      obtain ⟨n, index, a⟩ := first
      obtain ⟨ha, hrest⟩ := List.forall_mem_cons.mp hnumbered
      unfold itemReports at h
      rcases List.mem_append.mp h with h | h
      · split at h
        · rw [List.mem_singleton.mp h]
          exact .inr ⟨a, ha, name, expected, rfl⟩
        · cases h
      rcases List.mem_append.mp h with h | h
      · exact .inl (isError_of_mem_faults h)
      · exact ih hrest h

/-- What is reported of an argument is an error or about a gap. -/
theorem isErrorOrGap_of_mem_reports {name : String} (h : d ∈ arg.reports i name) :
    IsErrorOrGap i d := by
  unfold reports at h
  split at h
  · exact .inl (isError_of_mem_singularReports h)
  · unfold numberedReports at h
    split at h
    · exact .inl (isError_of_mem_missingReports h)
    · rcases List.mem_append.mp h with h | h
      · refine isErrorOrGap_of_mem_itemReports (fun t ht => ?_) h
        exact List.mem_of_getElem? (mem_numberedAttributes.mp ht).1
      · split at h
        · cases h
        · rw [List.mem_singleton.mp h]
          exact .inl rfl
  · exact .inl (isError_of_mem_entryReports h)

end PlainArgument

theorem isError_of_mem_testReports {s : Scope α} {test : Expression α Bool}
    {declared failed : Span} {message : String}
    (h : d ∈ testReports s test declared failed message) : d.isError = true := by
  unfold testReports at h
  split at h
  · cases h
  · rw [List.mem_singleton.mp h]
    rfl
  · cases h
  · rw [List.mem_singleton.mp h]
    rfl

namespace Pattern

variable {p : Pattern α}

theorem isErrorOrGap_of_mem_reports (h : d ∈ p.arguments.flatMap (·.reports i)) :
    IsErrorOrGap i d := by
  obtain ⟨arg, -, h⟩ := List.mem_flatMap.mp h
  obtain ⟨r, -, h⟩ := List.mem_flatMap.mp h
  exact PlainArgument.isErrorOrGap_of_mem_reports h

theorem isError_of_mem_testReports {s : Scope α} (h : d ∈ p.testReports i s) :
    d.isError = true := by
  rcases List.mem_append.mp h with h | h
  · obtain ⟨arg, -, h⟩ := List.mem_flatMap.mp h
    unfold Argument.testReports at h
    cases htest : arg.test with
    | none => simp [htest] at h
    | some test =>
        rw [htest] at h
        exact PatternMarkup.isError_of_mem_testReports h
  · obtain ⟨v, -, h⟩ := List.mem_flatMap.mp h
    exact PatternMarkup.isError_of_mem_testReports h

/-- Whatever is reported of an instance is an error, or is told at the name of an attribute. -/
theorem isError_or_of_mem_reports (h : d ∈ p.reports i) :
    d.isError = true ∨ ∃ a ∈ i.attributes, d.span = a.nameSpan := by
  rcases List.mem_append.mp h with h | h
  · rcases isErrorOrGap_of_mem_reports h with herror | ⟨a, ha, name, expected, rfl⟩
    · exact .inl herror
    · exact .inr ⟨a, ha, rfl⟩
  rcases List.mem_append.mp h with h | h
  · obtain ⟨index, a, ha, -, rfl⟩ := mem_strangerReports.mp h
    exact .inr ⟨a, List.mem_of_getElem? ha, rfl⟩
  · exact .inl (isError_of_mem_testReports h)

end Pattern

end PatternMarkup
