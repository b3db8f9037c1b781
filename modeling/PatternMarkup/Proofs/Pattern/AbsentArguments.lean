import Mathlib
import PatternMarkup.Number.Double
import PatternMarkup.Proofs.Markup.DocumentReports
import PatternMarkup.Proofs.Pattern.ArgumentTypes
import PatternMarkup.Proofs.Pattern.DeclaredArguments
/-!
Instances that give nothing. No two elements of a source have their names at one place, so each
argument, with the members of a group, and each validation is declared at places of its own. The
required arguments, and the required members of groups, are reported as missing there, and then the
tests of what has a value anyway report; nothing else is reported.
-/

namespace PatternMarkup

/-! ### The places of what is declared -/

section Places

open Binder

theorem exists_of_mem_sublistForall₂ {β γ : Type} {R : β → γ → Prop} {xs : List β} {ys : List γ}
    (h : List.SublistForall₂ R xs ys) {x : β} (hx : x ∈ xs) : ∃ y ∈ ys, R x y := by
  induction h with
  | nil => cases hx
  | @cons x' y xs ys hfirst hrest ih =>
      rcases List.mem_cons.mp hx with rfl | hx
      · exact ⟨y, List.mem_cons_self, hfirst⟩
      · obtain ⟨y', hy', hR⟩ := ih hx
        exact ⟨y', List.mem_cons_of_mem y hy', hR⟩
  | @cons_right y xs ys hrest ih =>
      obtain ⟨y', hy', hR⟩ := ih hx
      exact ⟨y', List.mem_cons_of_mem y hy', hR⟩

/-- What holds of the later list two by two holds of the items that belong to some of it. -/
theorem pairwise_of_sublistForall₂ {β γ : Type} {R : β → γ → Prop} {S : γ → γ → Prop}
    {T : β → β → Prop} (hT : ∀ {x y x' y'}, R x y → R x' y' → S y y' → T x x')
    {xs : List β} {ys : List γ} (h : List.SublistForall₂ R xs ys) (hys : ys.Pairwise S) :
    xs.Pairwise T := by
  induction h with
  | nil => exact .nil
  | cons hfirst hrest ih =>
      obtain ⟨hy, hys⟩ := List.pairwise_cons.mp hys
      refine List.pairwise_cons.mpr ⟨fun x' hx' => ?_, ih hys⟩
      obtain ⟨y', hy', hR⟩ := exists_of_mem_sublistForall₂ hrest hx'
      exact hT hfirst hR (hy y' hy')
  | cons_right _ ih => exact ih (List.pairwise_cons.mp hys).2

/-! ### Places of elements -/

namespace Arena

variable {a : Arena} {topLevel : List NodeId}

/-- The names at an element are those of the element and of the elements in it. -/
theorem exists_of_mem_namePlaces {c : NodeId} {e : Element} {tag : Tag}
    (he : a.element? c = some e) {span : Span} (h : span ∈ Tree.namePlaces (a.tree c, e, tag)) :
    ∃ d, (d = c ∨ d ∈ a.children c) ∧ ∃ e', a.element? d = some e' ∧ e'.nameSpan = span := by
  rcases List.mem_cons.mp h with rfl | h
  · exact ⟨c, .inl rfl, e, he, rfl⟩
  · obtain ⟨entry, hentry, rfl⟩ := List.mem_map.mp h
    obtain ⟨d, hd, -, he'⟩ := mem_elements_tree hentry
    exact ⟨d, .inr hd, entry.2.1, he', rfl⟩

/-- A node is not at two children of another one, nor directly below two of them. -/
theorem Linked.ne_of_siblings (h : a.Linked topLevel) {id c c' d d' : NodeId}
    (hc : c ∈ a.children id) (hc' : c' ∈ a.children id) (hne : c ≠ c')
    (hd : d = c ∨ d ∈ a.children c) (hd' : d' = c' ∨ d' ∈ a.children c') : d ≠ d' := by
  have hparent : ∀ {p x}, x ∈ a.children p → (a.node x).parent = some p := fun hx =>
    (h.up (some _) _ hx).2.1
  have hbelow := (a.children_bounds hc).1
  have hbelow' := (a.children_bounds hc').1
  rintro rfl
  rcases hd with rfl | hd <;> rcases hd' with rfl | hd'
  · exact hne rfl
  · have hid := (hparent hc).symm.trans (hparent hd')
    exact Nat.ne_of_lt hbelow' (Option.some.inj hid)
  · have hid := (hparent hc').symm.trans (hparent hd)
    exact Nat.ne_of_lt hbelow (Option.some.inj hid)
  · exact hne (Option.some.inj ((hparent hd).symm.trans (hparent hd')))

end Arena

/-- The elements in a node have their names, and those of the elements in them, apart from each
other. -/
theorem Document.disjoint_namePlaces (source : String) (keepComments : Bool) (id : NodeId) :
    (Tree.elements ((ofSource source keepComments).arena.tree id).children).Pairwise
      fun x y => List.Disjoint (Tree.namePlaces x) (Tree.namePlaces y) := by
  have hlinked : (ofSource source keepComments).arena.Linked
      (ofSource source keepComments).topLevel :=
    (TreeBuilder.sound_ofTokens keepComments (TokenStream.tiles_ofSource source)).linked
  rw [Arena.elements_tree, List.pairwise_filterMap]
  refine (hlinked.increasing (some id)).imp_of_mem fun {c c'} hc hc' hlt x hx y hy => ?_
  obtain ⟨e, he, rfl⟩ := Option.map_eq_some_iff.mp hx
  obtain ⟨e', he', rfl⟩ := Option.map_eq_some_iff.mp hy
  intro span hspan hspan'
  obtain ⟨d, hd, f, hf, rfl⟩ := Arena.exists_of_mem_namePlaces he hspan
  obtain ⟨d', hd', f', hf', hsame⟩ := Arena.exists_of_mem_namePlaces he' hspan'
  have hne := hlinked.ne_of_siblings hc hc' (Nat.ne_of_lt hlt) hd hd'
  exact hne (eq_of_nameSpan_eq hf hf' hsame.symm)

/-! ### Places of arguments and validations -/

variable {α : Type} [Number α]

theorem gives_validation? (s : Scope α) (tree : Tree) (e : Element) :
    Gives (validation? s tree e) fun found => ∀ v ∈ found, v.span = e.nameSpan := by
  unfold validation?
  refine .of_next fun _ => .of_next fun message => .of_next fun a => ?_
  cases a with
  | none => exact .none
  | some a =>
      refine .of_next fun test => .pure fun v hv => ?_
      obtain ⟨test, -, rfl⟩ := Option.map_eq_some_iff.mp hv
      rfl

/-- Each validation is declared at an element for it. -/
theorem gives_declaredValidations (s : Scope α) (elements : List (Tree × Element × Tag)) :
    Gives (declaredValidations s elements) fun validations => ∀ v ∈ validations,
      ∃ entry ∈ elements, entry.2.2 = .validate ∧ v.span = entry.2.1.nameSpan := by
  induction elements with
  | nil => exact .nil
  | cons first rest ih =>
      obtain ⟨tree, e, tag⟩ := first
      have hlater : ∀ found : Option (Validation α),
          (∀ v ∈ found, tag = .validate ∧ v.span = e.nameSpan) →
          Gives (do return found.toList ++ (← declaredValidations s rest)) fun validations =>
            ∀ v ∈ validations, ∃ entry ∈ (tree, e, tag) :: rest,
              entry.2.2 = .validate ∧ v.span = entry.2.1.nameSpan := by
        refine fun found hfound => ih.bind fun more hmore => .pure fun v hv => ?_
        rcases List.mem_append.mp hv with hv | hv
        · exact ⟨(tree, e, tag), List.mem_cons_self, hfound v (Option.mem_toList.mp hv)⟩
        · obtain ⟨entry, hentry, hplace⟩ := hmore v hv
          exact ⟨entry, List.mem_cons_of_mem _ hentry, hplace⟩
      unfold declaredValidations
      simp only
      split
      · next htag =>
          refine (gives_validation? s tree e).bind fun found hfound => ?_
          exact hlater found fun v hv => ⟨htag, hfound v hv⟩
      · exact .of_pure (hlater none fun v hv => absurd hv (Option.not_mem_none v))

/-- Each argument of a pattern, with its members, and each validation has places of its own. -/
structure Pattern.StandsApart (p : Pattern α) : Prop where
  arguments : p.arguments.Pairwise fun arg arg' => List.Disjoint arg.places arg'.places
  validations : ∀ v ∈ p.validations, ∀ arg ∈ p.arguments, v.span ∉ arg.places

namespace Pattern

variable {p : Pattern α}

omit [Number α] in
theorem StandsApart.eq_of_mem (h : p.StandsApart) {arg arg' : Argument α} (harg : arg ∈ p.arguments)
    (harg' : arg' ∈ p.arguments) {span : Span} (hspan : span ∈ arg.places)
    (hspan' : span ∈ arg'.places) : arg = arg' := by
  have hsymm : Std.Symm fun arg arg' : Argument α => List.Disjoint arg.places arg'.places :=
    ⟨fun _ _ hdisjoint => hdisjoint.symm⟩
  by_contra hne
  exact h.arguments.forall harg harg' hne hspan hspan'

/-- What a source declares stands apart. -/
theorem standsApart_of_bindSource (source : String) (o : BindOptions)
    (hp : p ∈ (bindSource source o : BoundDocument α).patterns) : p.StandsApart := by
  have hdeclares : Declares (α := α)
      (fun elements arguments => List.SublistForall₂ Argument.IsAt arguments elements)
      (fun elements validations => ∀ v ∈ validations, ∃ entry ∈ elements,
        entry.2.2 = .validate ∧ v.span = entry.2.1.nameSpan) :=
    ⟨fun elements r => (gives_declaredArguments [] [] elements r).2.2, gives_declaredValidations,
      fun _ => .nil, fun _ => List.forall_mem_nil _⟩
  obtain ⟨id, harguments, hvalidations⟩ := hdeclares.bind _ o hp
  have hapart := Document.disjoint_namePlaces source o.keepComments id
  constructor
  · refine pairwise_of_sublistForall₂ (fun hx hy hdisjoint => ?_) harguments hapart
    exact fun span hspan hspan' => hdisjoint (hx.2 hspan) (hy.2 hspan')
  · intro v hv arg harg hspan
    obtain ⟨x, hx, htag, hplace⟩ := hvalidations v hv
    obtain ⟨y, hy, hnot, hplaces⟩ := exists_of_mem_sublistForall₂ harguments harg
    have hne : x ≠ y := fun heq => hnot (heq ▸ htag)
    have hsymm : Std.Symm fun x y : Tree × Element × Tag =>
        List.Disjoint (Tree.namePlaces x) (Tree.namePlaces y) :=
      ⟨fun _ _ hdisjoint => hdisjoint.symm⟩
    refine hapart.forall hx hy hne ?_ (hplaces hspan)
    rw [hplace]
    exact List.mem_cons_self

end Pattern

end Places

/-! ### Reports made in a row -/

open InstanceBinder

/-- The reading with more reports made. -/
def InstanceReading.reportAll (r : InstanceReading) (made : List Diagnostic) : InstanceReading :=
  { r with diagnostics := r.diagnostics.pushAll made }

theorem InstanceReading.reportAll_append (r : InstanceReading) (made later : List Diagnostic) :
    r.reportAll (made ++ later) = (r.reportAll made).reportAll later := by
  rw [reportAll, Diagnostics.pushAll, List.foldl_append]
  rfl

namespace InstanceBinder

variable {β γ : Type}

/-- Whatever was found before, a step has a result and makes some reports. -/
def Runs (step : InstanceBinder β) (x : β) (made : List Diagnostic) : Prop :=
  ∀ r, step r = (x, r.reportAll made)

theorem Runs.pure {x : β} : Runs (Pure.pure x) x [] := fun _ => rfl

theorem runs_error (span : Span) (message : String) :
    Runs (error span message) () [.error .meaning span message] := fun _ => rfl

theorem Runs.bind {step : InstanceBinder β} {next : β → InstanceBinder γ} {x : β} {y : γ}
    {made later : List Diagnostic} (h : Runs step x made) (hnext : Runs (next x) y later) :
    Runs (step >>= next) y (made ++ later) := by
  intro r
  have hstep : (step >>= next) r = next (step r).1 (step r).2 := rfl
  rw [hstep, h r, hnext, InstanceReading.reportAll_append]

/-- A step that reports nothing more after another one. -/
theorem Runs.map {step : InstanceBinder β} {x : β} {made : List Diagnostic} (h : Runs step x made)
    (f : β → γ) : Runs (step >>= fun x => Pure.pure (f x)) (f x) made := by
  rw [← List.append_nil made]
  exact h.bind .pure

theorem Runs.forM {xs : List β} {step : β → InstanceBinder Unit} {made : β → List Diagnostic}
    (h : ∀ x ∈ xs, Runs (step x) () (made x)) : Runs (xs.forM step) () (xs.flatMap made) := by
  induction xs with
  | nil => exact .pure
  | cons x xs ih =>
      obtain ⟨hfirst, hrest⟩ := List.forall_mem_cons.mp h
      exact hfirst.bind (ih hrest)

theorem Runs.gives {step : InstanceBinder β} {x : β} {made : List Diagnostic}
    (h : Runs step x made) : Gives step (· = x) := by
  intro r
  rw [h r]

end InstanceBinder

variable {α : Type} [Number α]

/-! ### Single arguments -/

namespace PlainArgument

/-- The name under which an argument is looked for, if it is given under a name itself. -/
def soughtName (arg : PlainArgument α) (name : String) : String :=
  match arg.source with
  | .singular => name
  | .numbered => name ++ "1"
  | .entry => arg.name

/-- What is reported if an instance gives nothing under a name: that the value is missing, if it
is required. -/
def absences (arg : PlainArgument α) (name : String) : List Diagnostic :=
  if arg.isRequired then
    [.error .meaning arg.span ("missing required argument '" ++ arg.soughtName name ++ "'")]
  else []

/-- What an argument holds if an instance gives nothing: its default. A numbered one that is not
required has no items. -/
def absentValue (arg : PlainArgument α) : Option (Expression α (Value α)) :=
  match arg.source with
  | .numbered => if arg.isRequired then none else some (.constant (.list []))
  | _ => arg.fallback.map (·.value)

omit [Number α] in
theorem fallback_eq_none {arg : PlainArgument α} (h : arg.absentValue = none) :
    arg.fallback = none := by
  unfold absentValue at h
  split at h
  · split at h
    · next hrequired => exact fallback_of_isRequired hrequired
    · cases h
  · exact Option.map_eq_none_iff.mp h

omit [Number α] in
theorem runs_missing (arg : PlainArgument α) (name : String) :
    Runs (arg.missing name) (arg.fallback.map fun w => .single w.value)
      (if arg.isRequired then
        [.error .meaning arg.span ("missing required argument '" ++ name ++ "'")] else []) := by
  unfold missing isRequired
  cases hfallback : arg.fallback with
  | some w =>
      simp only [Option.isNone_some, Bool.and_false, Bool.false_eq_true, if_false]
      exact .pure
  | none =>
      cases hoptional : arg.optional with
      | true => exact .pure
      | false => exact (runs_error _ _).map fun _ => none

/-- The value of an argument, and what is reported, if the instance gives nothing. -/
theorem runs_bind (arg : PlainArgument α) (span : Span) (name : String) :
    Runs (arg.bind { span } name) (arg.absentValue.map .single) (arg.absences name) := by
  have hmissing := arg.runs_missing
  unfold bind absences absentValue soughtName
  cases hsource : arg.source with
  | singular =>
      rw [Option.map_map]
      exact hmissing name
  | entry =>
      rw [Option.map_map]
      exact hmissing arg.name
  | numbered =>
      have hnone : numberedAttributes name ({ span } : Instance α).attributes = [] := by
        simp [numberedAttributes]
      unfold bindNumbered
      rw [hnone]
      simp only
      cases hrequired : arg.isRequired with
      | true =>
          have hruns := hmissing (name ++ "1")
          rw [fallback_of_isRequired hrequired, hrequired] at hruns
          exact hruns
      | false => exact .pure

end PlainArgument

/-! ### Groups -/

theorem exists_eq_none_of_mapM_eq_none {β γ : Type} {f : β → Option γ} {xs : List β}
    (h : xs.mapM f = none) : ∃ x ∈ xs, f x = none := by
  induction xs with
  | nil => cases h
  | cons x xs ih =>
      rw [List.mapM_cons] at h
      cases hx : f x with
      | none => exact ⟨x, List.mem_cons_self, hx⟩
      | some y =>
          have hrest : xs.mapM f = none := by
            cases hmapM : xs.mapM f with
            | none => rfl
            | some ys => simp [hx, hmapM] at h
          obtain ⟨x', hx', hnone⟩ := ih hrest
          exact ⟨x', List.mem_cons_of_mem x hx', hnone⟩

theorem runs_bindMembers (span : Span) (name : String) (members : List (PlainArgument α)) :
    Runs (bindMembers { span } name members)
      (members.map fun m => m.absentValue.map fun e => (m.var, e))
      (members.flatMap fun m => m.absences (memberAttribute name m.name)) := by
  induction members with
  | nil => exact .pure
  | cons m rest ih =>
      unfold bindMembers
      refine (m.runs_bind span _).bind ?_
      rw [List.map_cons]
      cases m.absentValue with
      | none => exact ih.map _
      | some e => exact ih.map _

namespace Argument

/-- What is reported if an instance gives nothing: the values that are missing. -/
def absences : Argument α → List Diagnostic
  | plain arg => arg.absences arg.name
  | group g => g.members.flatMap fun m => m.absences (memberAttribute g.name m.name)

/-- What an argument holds if an instance gives nothing. A group needs a value for each member. -/
def absentValue : Argument α → Option (ArgumentValue α)
  | plain arg => arg.absentValue.map .single
  | group g =>
      (g.members.mapM fun m : PlainArgument α => m.absentValue.map fun e => (m.var, e)).map
        fun fields => .group (Fields.ofList fields)

theorem runs_bind (arg : Argument α) (span : Span) :
    Runs (arg.bind { span }) arg.absentValue arg.absences := by
  cases arg with
  | plain arg => exact arg.runs_bind span arg.name
  | group g =>
      have hfields := (runs_bindMembers span g.name g.members).map
        fun fields => (fields.mapM id).map fun fields => ArgumentValue.group (Fields.ofList fields)
      rw [List.mapM_map] at hfields
      unfold bind
      exact hfields

end Argument

/-! ### All arguments and their tests -/

theorem runs_bindAll (span : Span) (vs : ArgumentValues α) (arguments : List (Argument α)) :
    Runs (bindAll { span } vs arguments)
      (arguments.foldl (fun vs arg => vs.insert arg arg.absentValue) vs)
      (arguments.flatMap (·.absences)) := by
  induction arguments generalizing vs with
  | nil => exact .pure
  | cons arg rest ih =>
      unfold bindAll
      exact (arg.runs_bind span).bind (ih _)

/-- The report of a test in a scope. One that needs a missing value is passed over. -/
def testReport? (s : Scope α) (test : Expression α Bool) (span : Span) (message : String) :
    Option Diagnostic :=
  match test.evaluate s with
  | .ok true => none
  | .ok false => some (.error .meaning span message)
  | .error (.unbound _) => none
  | .error e => some (.error .evaluation span e.message)

/-- The report of an argument's own test. -/
def Argument.testReport? (arg : Argument α) (s : Scope α) : Option Diagnostic :=
  arg.test.bind fun test => PatternMarkup.testReport? s test arg.span arg.failureMessage

/-- The report of a validation. -/
def Validation.testReport? (v : Validation α) (s : Scope α) : Option Diagnostic :=
  PatternMarkup.testReport? s v.test v.span v.message

theorem runs_runTest (s : Scope α) (test : Expression α Bool) (span : Span) (message : String) :
    Runs (runTest s test span span message) () (testReport? s test span message).toList := by
  unfold runTest testReport?
  cases test.evaluate s with
  | ok passed =>
      cases passed with
      | true => exact .pure
      | false => exact runs_error span message
  | error e =>
      cases e with
      | unbound => exact .pure
      | _ => exact fun _ => rfl

theorem runs_runTests (p : Pattern α) (span : Span) (s : Scope α) :
    Runs (runTests p { span } s) ()
      (p.arguments.flatMap (fun arg => (arg.testReport? s).toList) ++
        p.validations.flatMap fun v => (v.testReport? s).toList) := by
  unfold runTests
  refine Runs.bind (.forM fun arg _ => ?_) (.forM fun v _ => runs_runTest s _ _ _)
  unfold Argument.testReport?
  split
  · next test htest =>
      rw [htest]
      exact runs_runTest s test _ _
  · next htest =>
      rw [htest]
      exact .pure

/-- The reports about an instance that gives nothing, in their order: of values that are missing,
and then of tests in the scope of the values that arguments have anyway. -/
def Pattern.absentReports (p : Pattern α) (s : Scope α) : List Diagnostic :=
  p.arguments.flatMap (·.absences) ++
    (p.arguments.flatMap (fun arg => (arg.testReport? s).toList) ++
      p.validations.flatMap fun v => (v.testReport? s).toList)

theorem Pattern.bindArguments_bare (p : Pattern α) (span : Span) :
    let bound := p.bindArguments { span }
    bound.2 = .ofList (p.absentReports (bound.1.scope Canvas.declarations)) := by
  have hstrangers : Runs (reportStrangers p.qualifiedName ({ span } : Instance α)) () [] :=
    fun _ => rfl
  have hruns : Runs (do
      let vs ← bindAll { span } {} p.arguments
      reportStrangers p.qualifiedName ({ span } : Instance α)
      runTests p { span } (vs.scope Canvas.declarations)
      return vs) _ _ :=
    (runs_bindAll span {} p.arguments).bind
      (hstrangers.bind ((runs_runTests p span _).map fun _ => _))
  have hbound : p.bindArguments { span } = (_, Diagnostics.ofList _) :=
    congrArg (fun result => (result.1, result.2.diagnostics)) (hruns {})
  rw [hbound]
  rfl

/-! ### What is reported at one argument -/

theorem of_testReport? {s : Scope α} {test : Expression α Bool} {span : Span} {message : String}
    {d : Diagnostic} (h : testReport? s test span message = some d) :
    d.span = span ∧ d.isError = true := by
  unfold testReport? at h
  split at h
  · cases h
  · obtain rfl := Option.some.inj h
    exact ⟨rfl, rfl⟩
  · cases h
  · obtain rfl := Option.some.inj h
    exact ⟨rfl, rfl⟩

omit [Number α] in
theorem PlainArgument.of_mem_absences {arg : PlainArgument α} {name : String} {d : Diagnostic}
    (h : d ∈ arg.absences name) :
    arg.isRequired = true ∧ d.span = arg.span ∧ d.isError = true := by
  unfold absences at h
  split at h
  · next hrequired =>
      rw [List.mem_singleton.mp h]
      exact ⟨hrequired, rfl, rfl⟩
  · cases h

namespace Argument

variable {arg : Argument α} {d : Diagnostic}

/-- Whether an argument is declared optional. -/
def isOptional : Argument α → Bool
  | plain arg => arg.optional
  | group g => g.optional

/-- Whether a group is declared as its members are: with no required one if it is optional, and
else with one, unless all have defaults. -/
def IsConsistent : Argument α → Prop
  | plain _ => True
  | group g =>
      (g.optional = true → ∀ m ∈ g.members, m.isRequired = false) ∧
        (g.optional = false →
          (∀ m ∈ g.members, m.fallback.isSome) ∨ ∃ m ∈ g.members, m.isRequired = true)

instance : DecidablePred (IsConsistent : Argument α → Prop)
  | plain _ => inferInstanceAs (Decidable True)
  | group _ => inferInstanceAs (Decidable (_ ∧ _))

omit [Number α] in
theorem span_mem_places (arg : Argument α) : arg.span ∈ arg.places := by
  cases arg <;> exact List.mem_cons_self

omit [Number α] in
theorem of_mem_absences (h : d ∈ arg.absences) : d.span ∈ arg.places ∧ d.isError = true := by
  cases arg with
  | plain arg =>
      obtain ⟨-, hspan, herror⟩ := PlainArgument.of_mem_absences h
      exact ⟨List.mem_singleton.mpr hspan, herror⟩
  | group g =>
      obtain ⟨m, hm, hd⟩ := List.mem_flatMap.mp h
      obtain ⟨-, hspan, herror⟩ := PlainArgument.of_mem_absences hd
      rw [hspan]
      exact ⟨List.mem_cons_of_mem _ (List.mem_map_of_mem hm), herror⟩

omit [Number α] in
theorem absences_eq_nil (h : arg.IsConsistent) (hoptional : arg.isOptional = true) :
    arg.absences = [] := by
  refine List.eq_nil_iff_forall_not_mem.mpr fun d hd => ?_
  cases arg with
  | plain arg =>
      have hrequired := (PlainArgument.of_mem_absences hd).1
      rw [PlainArgument.isRequired, show arg.optional = true from hoptional] at hrequired
      cases hrequired
  | group g =>
      obtain ⟨m, hm, hd⟩ := List.mem_flatMap.mp hd
      have hrequired := (PlainArgument.of_mem_absences hd).1
      rw [h.1 hoptional m hm] at hrequired
      cases hrequired

omit [Number α] in
theorem exists_mem_absences (h : arg.IsConsistent) (hoptional : arg.isOptional = false)
    (hnone : arg.absentValue = none) : ∃ d, d ∈ arg.absences := by
  have hreported : ∀ (m : PlainArgument α) (name : String), m.isRequired = true →
      ∃ d, d ∈ m.absences name := by
    intro m name hrequired
    rw [PlainArgument.absences, if_pos hrequired]
    exact ⟨_, List.mem_singleton_self _⟩
  cases arg with
  | plain arg =>
      have hfallback := PlainArgument.fallback_eq_none (Option.map_eq_none_iff.mp hnone)
      refine hreported arg arg.name ?_
      rw [PlainArgument.isRequired, show arg.optional = false from hoptional, hfallback]
      rfl
  | group g =>
      obtain ⟨m, hm, hvalue⟩ := exists_eq_none_of_mapM_eq_none (Option.map_eq_none_iff.mp hnone)
      have hfallback := PlainArgument.fallback_eq_none (Option.map_eq_none_iff.mp hvalue)
      rcases h.2 hoptional with hall | ⟨m', hm', hrequired⟩
      · have hsome := hall m hm
        rw [hfallback] at hsome
        cases hsome
      · obtain ⟨d, hd⟩ := hreported m' (memberAttribute g.name m'.name) hrequired
        exact ⟨d, List.mem_flatMap.mpr ⟨m', hm', hd⟩⟩

end Argument

namespace Pattern

variable {p : Pattern α} {d : Diagnostic}

/-- Which arguments have a value if an instance gives nothing. -/
theorem isBound_bare (hdistinct : (p.arguments.map (·.var)).Nodup) (span : Span)
    {arg : Argument α} (harg : arg ∈ p.arguments) :
    (p.bindArguments { span }).1.isBound arg.var = arg.absentValue.isSome := by
  have hvalues := p.areOf_bindArguments { span } hdistinct fun arg _ => (arg.runs_bind span).gives
  obtain ⟨value, hget, rfl⟩ := hvalues.values arg harg
  rw [ArgumentValues.isBound, hget]
  rfl

theorem of_mem_absentReports {s : Scope α} (h : d ∈ p.absentReports s) :
    d.isError = true ∧ ((∃ arg ∈ p.arguments, d ∈ arg.absences) ∨
      (∃ arg ∈ p.arguments, d.span = arg.span ∧ arg.testReport? s = some d) ∨
      ∃ v ∈ p.validations, d.span = v.span) := by
  rcases List.mem_append.mp h with h | h
  · obtain ⟨arg, harg, hd⟩ := List.mem_flatMap.mp h
    exact ⟨(Argument.of_mem_absences hd).2, .inl ⟨arg, harg, hd⟩⟩
  rcases List.mem_append.mp h with h | h
  · obtain ⟨arg, harg, hd⟩ := List.mem_flatMap.mp h
    have htest := Option.mem_toList.mp hd
    obtain ⟨test, -, hreport⟩ := Option.bind_eq_some_iff.mp htest
    obtain ⟨hspan, herror⟩ := of_testReport? hreport
    exact ⟨herror, .inr (.inl ⟨arg, harg, hspan, htest⟩)⟩
  · obtain ⟨v, hv, hd⟩ := List.mem_flatMap.mp h
    obtain ⟨hspan, herror⟩ := of_testReport? (Option.mem_toList.mp hd)
    exact ⟨herror, .inr (.inr ⟨v, hv, hspan⟩)⟩

/-- An instance that gives nothing: an argument that is declared optional is reported only by its
own test, and one that is not, and is left without a value, has an error among the reports at it.
Of a group both hold if it is declared as its members are. -/
theorem bindArguments_absent (source : String) (o : BindOptions)
    (hp : p ∈ (bindSource source o : BoundDocument α).patterns) (span : Span) :
    let bound := p.bindArguments { span }
    ∀ arg ∈ p.arguments, arg.IsConsistent →
      (arg.isOptional = true → ∀ d ∈ bound.2.items, d.span ∈ arg.places →
        arg.testReport? (bound.1.scope Canvas.declarations) = some d) ∧
      (arg.isOptional = false → bound.1.isBound arg.var = false →
        ∃ d ∈ bound.2.items, d.isError = true ∧ d.span ∈ arg.places) := by
  intro bound arg harg hconsistent
  have hreports : bound.2 = _ := p.bindArguments_bare span
  rw [hreports]
  constructor
  · intro hoptional d hd hspan
    have happart := standsApart_of_bindSource source o hp
    have hmade := List.mem_of_find?_eq_some (Diagnostics.mem_items_ofList.mp hd)
    rcases (of_mem_absentReports hmade).2 with
      ⟨arg', harg', habsent⟩ | ⟨arg', harg', hplace, htest⟩ | ⟨v, hv, hplace⟩
    · have hsame := happart.eq_of_mem harg harg' hspan (Argument.of_mem_absences habsent).1
      rw [← hsame, Argument.absences_eq_nil hconsistent hoptional] at habsent
      cases habsent
    · have hsame := happart.eq_of_mem harg harg' hspan (hplace ▸ arg'.span_mem_places)
      rw [hsame]
      exact htest
    · exact absurd (hplace ▸ hspan) (happart.validations v hv arg harg)
  · intro hoptional hunbound
    have hdistinct := ((Document.ofSource source o.keepComments).areDeclared_bind o hp).distinct
    rw [isBound_bare hdistinct span harg, Option.isSome_eq_false_iff, Option.isNone_iff_eq_none]
      at hunbound
    obtain ⟨missing, hmissing⟩ := Argument.exists_mem_absences hconsistent hoptional hunbound
    have hmade : missing ∈ p.absentReports (bound.1.scope Canvas.declarations) :=
      List.mem_append_left _ (List.mem_flatMap.mpr ⟨arg, harg, hmissing⟩)
    obtain ⟨d, hfirst⟩ := Diagnostics.exists_firstAt hmade
    have hspan := Diagnostics.span_of_firstAt hfirst
    refine ⟨d, Diagnostics.mem_items_ofList.mpr (hspan.symm ▸ hfirst), ?_, ?_⟩
    · exact (of_mem_absentReports (List.mem_of_find?_eq_some hfirst)).1
    · rw [hspan]
      exact (Argument.of_mem_absences hmissing).1

/-- What an instance that gives nothing makes of each argument: its name, whether it is declared
optional, whether it has a value, and the errors reported at it. -/
def absentOutcomes (p : Pattern α) : List (String × Bool × Bool × List String) :=
  let bound := p.bindArguments {}
  p.arguments.map fun arg => (arg.name, arg.isOptional, bound.1.isBound arg.var,
    (bound.2.items.filter fun d => d.isError && decide (d.span ∈ arg.places)).map (·.message))

/-- An optional argument, a required one, and a group with a required member. -/
theorem bindArguments_absent_mixed :
    let source := "<pattern name='p' type='widget'><arg name='a' type='int' optional='true'/>" ++
      "<arg name='b' type='int'/><args name='g'><arg name='m' type='int'/></args></pattern>"
    ∃ p ∈ (bindSource source {} : BoundDocument Float).patterns,
      p.absentOutcomes = [("a", true, false, []),
        ("b", false, false, ["missing required argument 'b'"]),
        ("g", false, false, ["missing required argument 'g-m'"])] ∧
      let bound := p.bindArguments {}
      ∀ arg ∈ p.arguments, arg.IsConsistent ∧
        (arg.isOptional = true → ∀ d ∈ bound.2.items, d.span ∈ arg.places →
          arg.testReport? (bound.1.scope Canvas.declarations) = some d) ∧
        (arg.isOptional = false → bound.1.isBound arg.var = false →
          ∃ d ∈ bound.2.items, d.isError = true ∧ d.span ∈ arg.places) := by
  intro source
  have houtcomes : (bindSource source {} : BoundDocument Float).patterns.map (·.absentOutcomes) =
      [[("a", true, false, []), ("b", false, false, ["missing required argument 'b'"]),
        ("g", false, false, ["missing required argument 'g-m'"])]] := by
    decide +kernel
  have hconsistent : ∀ p ∈ (bindSource source {} : BoundDocument Float).patterns,
      ∀ arg ∈ p.arguments, arg.IsConsistent := by
    decide +kernel
  obtain ⟨p, hp, hresult⟩ := List.map_eq_singleton_iff.mp houtcomes
  have hmem : p ∈ (bindSource source {} : BoundDocument Float).patterns :=
    hp ▸ List.mem_singleton_self p
  refine ⟨p, hmem, hresult, fun arg harg => ⟨hconsistent p hmem arg harg, ?_⟩⟩
  exact bindArguments_absent source {} hmem ⟨0, 0, 0, 0⟩ arg harg (hconsistent p hmem arg harg)

/-- An optional argument with a test, and two groups that are not declared as their members are. -/
def contraryArguments : String :=
  "<pattern name='p' type='widget'>" ++
    "<arg name='x' type='int' numbered='true' optional='true' test='\x7bx != []\x7d'/>" ++
    "<args name='g' optional='true'><arg name='m' type='int'/></args>" ++
    "<args name='h'><arg name='m' type='int' optional='true'/></args></pattern>"

theorem absentOutcomes_contraryArguments :
    let d : BoundDocument α := bindSource contraryArguments {}
    d.diagnostics.hasErrors = false ∧ d.patterns.map (·.absentOutcomes) =
      [[("x", true, true, ["argument 'x' failed its test"]),
        ("g", true, false, ["missing required argument 'g-m'"]), ("h", false, false, [])]] := by
  cbv

/-- An optional argument without items fails its test; and what is reported of a group depends on
its members, whatever it is declared as. -/
theorem bindArguments_contrary :
    let d : BoundDocument Float := bindSource contraryArguments {}
    d.diagnostics.hasErrors = false ∧ d.patterns.map (·.absentOutcomes) =
      [[("x", true, true, ["argument 'x' failed its test"]),
        ("g", true, false, ["missing required argument 'g-m'"]), ("h", false, false, [])]] :=
  absentOutcomes_contraryArguments

end Pattern

end PatternMarkup
