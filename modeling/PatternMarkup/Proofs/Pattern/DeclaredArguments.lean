import Mathlib.Data.List.Forall2
import PatternMarkup.Proofs.Formula.Delivery
import PatternMarkup.Proofs.Formula.ListItems
import PatternMarkup.Proofs.Pattern.ReadingSteps
/-!
What holds of the arguments that a pattern declares, whatever stands in the source: a constant that
a declaration gives is in the form of the argument's type, and no two arguments, and no two members
of a group, have one variable. Each argument has an element of its own, and its members stand in it.
Its example is what the text of the example is read as, and does not fail the argument's test; the
formula of the test is folded.
-/

namespace PatternMarkup

open Binder

/-- The elements in a node are those among its children. -/
theorem Arena.elements_tree (a : Arena) (id : NodeId) :
    Tree.elements (a.tree id).children = (a.children id).filterMap fun c =>
      (a.element? c).map fun e => (a.tree c, e, Tag.ofName e.name) := by
  rw [a.tree_eq, Tree.elements]
  refine List.filterMap_map.trans (List.filterMap_congr fun c _ => ?_)
  have helement : (a.tree c).content.element? = a.element? c := by
    rw [a.tree_eq]
    rfl
  rw [Function.comp_apply, Tree.element?, helement, Option.map_map]
  rfl

theorem Arena.mem_elements_tree {a : Arena} {id : NodeId} {entry : Tree × Element × Tag}
    (h : entry ∈ Tree.elements (a.tree id).children) :
    ∃ c ∈ a.children id, entry.1 = a.tree c ∧ a.element? c = some entry.2.1 := by
  rw [a.elements_tree] at h
  obtain ⟨c, hc, hentry⟩ := List.mem_filterMap.mp h
  obtain ⟨e, he, rfl⟩ := Option.map_eq_some_iff.mp hentry
  exact ⟨c, hc, rfl, he⟩

/-- The places of the names at an element: its own, and those of the elements in it. -/
def Tree.namePlaces (entry : Tree × Element × Tag) : List Span :=
  entry.2.1.nameSpan :: (Tree.elements entry.1.children).map (·.2.1.nameSpan)

variable {α : Type} [Number α]

/-- Whether the expression, if it is a constant, is in the form of a type already. -/
def Expression.IsInForm (e : Expression α (Value α)) (type : ValueType) : Prop :=
  ∀ v, e = .constant v → v.coerce type = .ok v

/-- The constants that a declaration gives are in the form of what they stand in for: the default
for one item, the example for the whole value. -/
structure PlainArgument.IsSound (arg : PlainArgument α) : Prop where
  fallback : ∀ w ∈ arg.fallback, w.value.IsInForm arg.type
  sample : ∀ w ∈ arg.sample, w.value.IsInForm arg.bindingType

/-- The members of a group are attributes and have variables of their own. -/
structure ArgumentGroup.IsSound (g : ArgumentGroup α) : Prop where
  members : ∀ m ∈ g.members, m.IsSound ∧ m.source = .singular
  distinct : (g.members.map (·.var)).Nodup

/-- What holds of every argument that is declared. -/
def Argument.IsSound : Argument α → Prop
  | .plain arg => arg.IsSound
  | .group g => g.IsSound

/-- What holds of all arguments of a pattern. -/
structure AreDeclared (arguments : List (Argument α)) : Prop where
  sound : ∀ arg ∈ arguments, arg.IsSound
  distinct : (arguments.map (·.var)).Nodup

/-- Where an argument is declared: its own place, and those of the members of a group. -/
def Argument.places : Argument α → List Span
  | .plain arg => [arg.span]
  | .group g => g.span :: g.members.map (·.span)

/-- The argument is declared at an element, which is no validation. -/
def Argument.IsAt (arg : Argument α) (entry : Tree × Element × Tag) : Prop :=
  entry.2.2 ≠ .validate ∧ arg.places ⊆ Tree.namePlaces entry

theorem areDeclared_nil : AreDeclared ([] : List (Argument α)) := ⟨List.forall_mem_nil _, .nil⟩

/-! ### Values that are written -/

theorem isInForm_of_readTyped {context : LiteralContext α} {type : ValueType} {text : Fragment}
    {e : Expression α (Value α)} (h : readTyped context type text = .ok e) :
    e.IsInForm type := by
  obtain ⟨ast, hsettle, -⟩ := exists_settle_of_readTyped h
  rintro v rfl
  rcases settle_cases hsettle with ⟨u, w, hw, hv⟩ | ⟨-, hv⟩
  · obtain rfl : v = w := Expression.constant.inj hv
    exact u.coerce_coerce hw
  · cases hv

theorem gives_expression? (a : Attribute) (type : ValueType) (s : Scope α) (axis : Option Axis) :
    Gives (a.expression? type s axis) fun found => ∀ e ∈ found, e.IsInForm type := by
  unfold Attribute.expression?
  split
  · exact .of_next fun _ => .none
  · next e hread => exact .of_next fun _ => .some (isInForm_of_readTyped hread)

theorem gives_writtenValue? (e : Element) (name : String) (type : ValueType) :
    Gives (writtenValue? (α := α) e name type) fun found =>
      ∀ w ∈ found, w.value.IsInForm type := by
  unfold writtenValue?
  refine .of_next fun a => ?_
  cases a with
  | none => exact .none
  | some a =>
      refine (gives_expression? a type _ none).bind fun found hfound => .pure fun w hw => ?_
      obtain ⟨value, hvalue, rfl⟩ := Option.map_eq_some_iff.mp hw
      exact hfound value hvalue

/-- What stays is what was there. -/
theorem gives_keepPassing (arg : PlainArgument α) (what : String) (w : Option (WrittenValue α)) :
    Gives (keepPassing arg what w) fun kept => ∀ x ∈ kept, x ∈ w := by
  unfold keepPassing
  cases w with
  | none => exact .none
  | some w =>
      simp only
      split
      · exact .of_next fun _ => .none
      · exact .some (Option.mem_some_self w)

/-! ### Single arguments -/

omit [Number α] in
theorem gives_argumentSource (e : Element) (isMember : Bool) :
    Gives (argumentSource e isMember) fun source => isMember = true → source = .singular := by
  unfold argumentSource
  refine .of_next fun numbered => .of_next fun entry => ?_
  split
  · exact .of_next fun _ => .pure fun _ => rfl
  · split
    · exact .of_next fun _ => .pure fun _ => rfl
    · rename_i hnot
      cases isMember with
      | true =>
          simp only [Bool.and_true, Bool.or_eq_true, not_or, Bool.not_eq_true] at hnot
          rw [hnot.1, hnot.2]
          exact .pure fun _ => rfl
      | false =>
          split
          · exact .pure nofun
          · split
            · exact .pure nofun
            · exact .pure nofun

theorem gives_plainArgument? (tree : Tree) (e : Element) (isMember : Bool) :
    Gives (plainArgument? (α := α) tree e isMember) fun found =>
      ∀ arg ∈ found, arg.IsSound ∧ (isMember = true → arg.source = .singular) ∧
        arg.span = e.nameSpan := by
  unfold plainArgument?
  refine .of_next fun _ => .of_next fun a => ?_
  cases a with
  | none => exact .none
  | some a =>
      refine .of_next fun var => ?_
      cases var with
      | none => exact .none
      | some var =>
          refine .of_next fun type => .of_next fun optional =>
            (gives_argumentSource e isMember).bind fun source hsource => .of_next fun test => ?_
          refine (gives_writtenValue? e _ type).bind fun fallback hfallback =>
            (gives_writtenValue? e _ _).bind fun sample hsample => ?_
          simp only
          split
          · refine .of_pure <| (gives_keepPassing _ _ _).bind fun sample' hsample' => .some ?_
            exact ⟨⟨hfallback, fun w hw => hsample w (hsample' w hw)⟩, hsource, rfl⟩
          · refine (gives_keepPassing _ _ _).bind fun fallback' hfallback' =>
              (gives_keepPassing _ _ _).bind fun sample' hsample' => .some ?_
            exact ⟨⟨fun w hw => hfallback w (hfallback' w hw),
              fun w hw => hsample w (hsample' w hw)⟩, hsource, rfl⟩

/-! ### Groups -/

/-- Members are added while their variables are new. -/
theorem gives_groupMembers (group : String) {places : List Span} (members : List (PlainArgument α))
    (hmembers : ∀ m ∈ members, (m.IsSound ∧ m.source = .singular) ∧ m.span ∈ places)
    (hdistinct : (members.map (·.var)).Nodup) (elements : List (Tree × Element × Tag))
    (hplaces : elements.map (·.2.1.nameSpan) ⊆ places) :
    Gives (groupMembers group members elements) fun found =>
      (∀ m ∈ found, (m.IsSound ∧ m.source = .singular) ∧ m.span ∈ places) ∧
        (found.map (·.var)).Nodup := by
  induction elements generalizing members with
  | nil => exact .pure ⟨hmembers, hdistinct⟩
  | cons first rest ih =>
      obtain ⟨tree, e, tag⟩ := first
      obtain ⟨hplace, hplaces⟩ := List.cons_subset.mp hplaces
      have ih := fun members hmembers hdistinct => ih members hmembers hdistinct hplaces
      unfold groupMembers
      split
      · refine (gives_plainArgument? tree e true).bind fun found hfound => ?_
        cases found with
        | none => exact ih members hmembers hdistinct
        | some m =>
            simp only
            split
            · exact .of_next fun _ => ih members hmembers hdistinct
            · rename_i hnew
              obtain ⟨hm, hsource, hspan⟩ := hfound m rfl
              refine ih _ (fun m' hm' => ?_) ?_
              · rcases List.mem_append.mp hm' with hm' | hm'
                · exact hmembers m' hm'
                · rw [List.mem_singleton.mp hm']
                  exact ⟨⟨hm, hsource rfl⟩, hspan ▸ hplace⟩
              · rw [List.map_append, List.map_singleton, List.nodup_append]
                refine ⟨hdistinct, List.nodup_singleton _, fun var hvar var' hvar' heq => hnew ?_⟩
                rw [List.mem_singleton.mp hvar'] at heq
                obtain ⟨m', hm', rfl⟩ := List.mem_map.mp hvar
                exact List.any_eq_true.mpr ⟨m', hm', beq_iff_eq.mpr heq⟩
      · exact .of_next fun _ => ih members hmembers hdistinct
      · exact .of_next fun _ => ih members hmembers hdistinct
      · exact .of_next fun _ => ih members hmembers hdistinct

theorem gives_argumentGroup? (tree : Tree) (e : Element) (tag : Tag) :
    Gives (argumentGroup? (α := α) tree e) fun found => ∀ g ∈ found, g.IsSound ∧
      (Argument.group g).places ⊆ Tree.namePlaces (tree, e, tag) := by
  unfold argumentGroup?
  refine .of_next fun _ => .of_next fun a => ?_
  cases a with
  | none => exact .none
  | some a =>
      refine .of_next fun var => ?_
      cases var with
      | none => exact .none
      | some var =>
          refine .of_next fun optional =>
            (gives_groupMembers _ [] (List.forall_mem_nil _) .nil _ (List.Subset.refl _)).bind
              fun members hmembers => ?_
          have hsound : (∀ m ∈ members, m.IsSound ∧ m.source = .singular) ∧
              (members.map (·.var)).Nodup := ⟨fun m hm => (hmembers.1 m hm).1, hmembers.2⟩
          have hplaces : e.nameSpan :: members.map (·.span) ⊆ Tree.namePlaces (tree, e, tag) := by
            refine List.cons_subset_cons _ fun span hspan => ?_
            obtain ⟨m, hm, rfl⟩ := List.mem_map.mp hspan
            exact (hmembers.1 m hm).2
          simp only
          split
          · exact .of_next fun _ => .of_next fun _ => .some ⟨⟨hsound.1, hsound.2⟩, hplaces⟩
          · exact .of_next fun _ => .some ⟨⟨hsound.1, hsound.2⟩, hplaces⟩

theorem gives_argument? (tree : Tree) (e : Element) (tag : Tag) :
    Gives (argument? (α := α) tree e tag) fun found =>
      ∀ arg ∈ found, arg.IsSound ∧ arg.IsAt (tree, e, tag) := by
  unfold argument?
  split
  · refine (gives_plainArgument? tree e false).bind fun found hfound => .pure fun arg harg => ?_
    obtain ⟨plain, hplain, rfl⟩ := Option.map_eq_some_iff.mp harg
    obtain ⟨hsound, -, hspan⟩ := hfound plain hplain
    exact ⟨hsound, nofun, List.forall_mem_singleton.mpr (hspan ▸ List.mem_cons_self)⟩
  · refine (gives_argumentGroup? tree e .args).bind fun found hfound => .pure fun arg harg => ?_
    obtain ⟨g, hg, rfl⟩ := Option.map_eq_some_iff.mp harg
    exact ⟨(hfound g hg).1, nofun, (hfound g hg).2⟩
  · exact .none

/-! ### All arguments of a pattern -/

omit [Number α] in
theorem gives_addArgument (names vars : List String) (arg : Argument α) :
    Gives (addArgument names vars arg) fun added => added.2 = true → arg.var ∉ vars := by
  unfold addArgument
  split
  · exact .of_next fun _ => .pure nofun
  · split
    · exact .of_next fun _ => .pure nofun
    · rename_i hnew
      exact .pure fun _ hmem => hnew (List.contains_iff_mem.mpr hmem)

/-- The arguments that are read after some variables are taken, each at an element of its own. -/
theorem gives_declaredArguments (names vars : List String)
    (elements : List (Tree × Element × Tag)) :
    Gives (declaredArguments (α := α) names vars elements) fun arguments =>
      AreDeclared arguments ∧ (∀ arg ∈ arguments, arg.var ∉ vars) ∧
        List.SublistForall₂ Argument.IsAt arguments elements := by
  induction elements generalizing names vars with
  | nil => exact .pure ⟨areDeclared_nil, List.forall_mem_nil _, .nil⟩
  | cons first rest ih =>
      obtain ⟨tree, e, tag⟩ := first
      unfold declaredArguments
      refine (gives_argument? tree e tag).bind fun found hfound => ?_
      cases found with
      | none =>
          intro r
          obtain ⟨hdeclared, hfresh, hat⟩ := ih names vars r
          exact ⟨hdeclared, hfresh, .cons_right hat⟩
      | some arg =>
          refine (gives_addArgument names vars arg).bind fun added hadded => ?_
          obtain ⟨newName, newVar⟩ := added
          refine (ih _ _).bind fun more hmore => .pure ?_
          obtain ⟨hdeclared, hfresh, hat⟩ := hmore
          cases newVar with
          | false => exact ⟨hdeclared, hfresh, .cons_right hat⟩
          | true =>
              obtain ⟨hsound, hplace⟩ := hfound arg rfl
              refine ⟨⟨List.forall_mem_cons.mpr ⟨hsound, hdeclared.sound⟩, ?_⟩, ?_,
                .cons hplace hat⟩
              · refine List.nodup_cons.mpr ⟨fun hmem => ?_, hdeclared.distinct⟩
                obtain ⟨other, hother, hvar⟩ := List.mem_map.mp hmem
                exact hfresh other hother (hvar ▸ List.mem_cons_self)
              · refine List.forall_mem_cons.mpr ⟨hadded rfl, fun other hother hmem => ?_⟩
                exact hfresh other hother (List.mem_cons_of_mem _ hmem)

/-! ### Patterns -/

/-- What holds of all that is declared among elements: of the arguments and of the validations. -/
structure Declares (A : List (Tree × Element × Tag) → List (Argument α) → Prop)
    (V : List (Tree × Element × Tag) → List (Validation α) → Prop) : Prop where
  arguments : ∀ elements, Gives (declaredArguments [] [] elements) (A elements)
  validations : ∀ s elements, Gives (declaredValidations s elements) (V elements)
  noArguments : ∀ elements, A elements []
  noValidations : ∀ elements, V elements []

namespace Declares

variable {A : List (Tree × Element × Tag) → List (Argument α) → Prop}
  {V : List (Tree × Element × Tag) → List (Validation α) → Prop}

theorem gives_patternParts (h : Declares A V) (tree : Tree) (e : Element) (kind : PatternKind) :
    Gives (patternParts (α := α) tree e kind) fun parts => ∀ body,
      A (Tree.elements tree.children) (parts.1 body).arguments ∧
        V (Tree.elements tree.children) (parts.1 body).validations :=
  (h.arguments _).bind fun _ harguments => (h.validations _ _).bind fun _ hvalidations =>
    .of_next fun _ => .of_next fun _ => .of_next fun _ => .of_next fun _ => .of_next fun _ =>
      .of_next fun _ => .pure fun _ => ⟨harguments, hvalidations⟩

theorem gives_patternContent (h : Declares A V) (index : DocumentIndex) (tree : Tree) (e : Element)
    (kind : PatternKind) :
    Gives (patternContent (α := α) index tree e kind) fun content =>
      A (Tree.elements tree.children) content.arguments ∧
        V (Tree.elements tree.children) content.validations := by
  unfold patternContent
  refine (h.gives_patternParts tree e kind).bind fun parts hparts => ?_
  exact .of_next fun body => .of_next fun _ => .pure (hparts body)

theorem gives_bindPattern (h : Declares A V) (index : DocumentIndex) (library : String)
    (tree : Tree) (e : Element) :
    Gives (bindPattern (α := α) index library tree e) fun p =>
      A (Tree.elements tree.children) p.arguments ∧
        V (Tree.elements tree.children) p.validations := by
  unfold bindPattern
  refine .of_next fun before => .of_next fun head => ?_
  obtain ⟨name, kind⟩ := head
  simp only
  split
  · refine (h.gives_patternContent index tree e _).bind fun c hc => .of_pure ?_
    exact .of_next fun _ => .pure hc
  · refine .of_next fun _ => .of_pure (.of_next fun _ => .pure ?_)
    exact ⟨h.noArguments _, h.noValidations _⟩

theorem gives_bindEntries (h : Declares A V) (index : DocumentIndex) (library : String)
    (names : List String) (elements : List (Tree × Element × Tag)) :
    Gives (bindEntries (α := α) index library names elements) fun patterns =>
      ∀ p ∈ patterns, ∃ entry ∈ elements, A (Tree.elements entry.1.children) p.arguments ∧
        V (Tree.elements entry.1.children) p.validations := by
  induction elements generalizing names with
  | nil => exact .nil
  | cons first rest ih =>
      obtain ⟨tree, e, tag⟩ := first
      have hlater : ∀ names, Gives (bindEntries (α := α) index library names rest) fun patterns =>
          ∀ p ∈ patterns, ∃ entry ∈ (tree, e, tag) :: rest,
            A (Tree.elements entry.1.children) p.arguments ∧
              V (Tree.elements entry.1.children) p.validations := by
        intro names r p hp
        obtain ⟨entry, hentry, hdeclared⟩ := ih names r p hp
        exact ⟨entry, List.mem_cons_of_mem _ hentry, hdeclared⟩
      unfold bindEntries
      split
      · refine (h.gives_bindPattern index library tree e).bind fun p hp => .of_next fun _ => ?_
        refine (hlater _).bind fun more hmore => .pure ?_
        exact List.forall_mem_cons.mpr ⟨⟨_, List.mem_cons_self, hp⟩, hmore⟩
      all_goals first
        | exact hlater names
        | exact .of_next fun _ => hlater names

theorem gives_bindPatterns (h : Declares A V) (o : BindOptions) (doc : Document) :
    Gives (bindPatterns (α := α) o doc) fun patterns => ∀ p ∈ patterns, ∃ id,
      A (Tree.elements (doc.arena.tree id).children) p.arguments ∧
        V (Tree.elements (doc.arena.tree id).children) p.validations := by
  unfold bindPatterns
  refine .of_next fun ids => ?_
  split
  · next root _ =>
      unfold bindRoot
      split
      · refine .of_next fun _ => .of_next fun library => ?_
        refine fun r p hp => ?_
        obtain ⟨entry, hentry, hdeclared⟩ := h.gives_bindEntries _ library [] _ r p hp
        obtain ⟨c, -, hc, -⟩ := Arena.mem_elements_tree hentry
        exact ⟨c, hc ▸ hdeclared⟩
      · refine (h.gives_bindPattern _ _ _ _).bind fun p hp => .pure ?_
        exact List.forall_mem_cons.mpr ⟨⟨root, hp⟩, List.forall_mem_nil _⟩
      · exact .of_next fun _ => .nil
  · exact .of_next fun _ => .nil

/-- What holds of all declarations holds of every pattern, with the elements in it. -/
theorem bind (h : Declares A V) (doc : Document) (o : BindOptions) {p : Pattern α}
    (hp : p ∈ (doc.bind o : BoundDocument α).patterns) : ∃ id,
      A (Tree.elements (doc.arena.tree id).children) p.arguments ∧
        V (Tree.elements (doc.arena.tree id).children) p.validations :=
  h.gives_bindPatterns o doc _ p hp

end Declares

/-- The arguments of every pattern that is read are declared soundly. -/
theorem Document.areDeclared_bind (doc : Document) (o : BindOptions) {p : Pattern α}
    (hp : p ∈ (doc.bind o : BoundDocument α).patterns) : AreDeclared p.arguments := by
  have hdeclares : Declares (α := α) (fun _ => AreDeclared) (fun _ _ => True) :=
    ⟨fun elements r => (gives_declaredArguments [] [] elements r).1, fun _ _ _ => trivial,
      fun _ => areDeclared_nil, fun _ => trivial⟩
  obtain ⟨-, harguments, -⟩ := hdeclares.bind doc o hp
  exact harguments

/-! ### What is read -/

/-- The scope in which the test of an argument is read: its own variable and the canvas. -/
def testScope (var : String) (type : ValueType) : Scope α :=
  (Canvas.declarations : Scope α).child.declare var type

/-- The example and the test of an argument are what is read of their texts. -/
structure PlainArgument.IsRead (arg : PlainArgument α) : Prop where
  sample : ∀ w ∈ arg.sample,
    readTyped { scope := Canvas.declarations } arg.bindingType (.ofString w.text 0) = .ok w.value
  passes : ∀ w ∈ arg.sample, arg.passes? w.value Canvas.declarations ≠ some false
  test : ∀ test ∈ arg.test, ∀ f, test = .formula f →
    f.ast.IsFolded (testScope arg.var arg.bindingType)

/-! ### Values and tests -/

theorem gives_expression?_read (a : Attribute) (type : ValueType) (s : Scope α)
    (axis : Option Axis) :
    Gives (a.expression? type s axis) fun found =>
      ∀ e ∈ found, readTyped { scope := s, axis } type (.ofString a.value 0) = .ok e := by
  unfold Attribute.expression?
  split
  · exact .of_next fun _ => .none
  · next e hread => exact .of_next fun _ => .some hread

theorem gives_writtenValue?_read (e : Element) (name : String) (type : ValueType) :
    Gives (writtenValue? (α := α) e name type) fun found => ∀ w ∈ found,
      readTyped { scope := Canvas.declarations } type (.ofString w.text 0) = .ok w.value := by
  unfold writtenValue?
  refine .of_next fun a => ?_
  cases a with
  | none => exact .none
  | some a =>
      refine (gives_expression?_read a type _ none).bind fun found hfound => .pure fun w hw => ?_
      obtain ⟨value, hvalue, rfl⟩ := Option.map_eq_some_iff.mp hw
      exact hfound value hvalue

theorem gives_typed?_folded (a : Attribute) (s : Scope α) (axis : Option Axis) :
    Gives (a.typed? s axis : Binder (Option (Expression α Bool))) fun found =>
      ∀ test ∈ found, ∀ f, test = .formula f → f.ast.IsFolded s := by
  unfold Attribute.typed?
  refine (gives_expression?_read a _ s axis).bind fun found hfound => ?_
  cases found with
  | none => exact .none
  | some e =>
      simp only
      split
      · next test hcast =>
          refine .some ?_
          rintro f rfl
          cases e with
          | constant v =>
              rw [Expression.cast] at hcast
              cases hv : (Typed.ofValue v : Except EvalError Bool) with
              | ok b =>
                  rw [hv] at hcast
                  cases hcast
              | error fault =>
                  rw [hv] at hcast
                  cases hcast
          | formula g =>
              obtain rfl := Expression.formula.inj (Except.ok.inj hcast)
              exact (isFolded_readTyped (hfound _ rfl) g rfl).1
      · exact .of_next fun _ => .none

theorem gives_argumentTest_folded (e : Element) (var : String) (type : ValueType) :
    Gives (argumentTest (α := α) e var type) fun found =>
      ∀ test ∈ found.1, ∀ f, test = .formula f → f.ast.IsFolded (testScope var type) := by
  have htyped : Gives
      (Binder.typed? e "test" (testScope var type) none : Binder (Option (Expression α Bool)))
      fun found => ∀ test ∈ found, ∀ f, test = .formula f →
        f.ast.IsFolded (testScope var type) := by
    unfold Binder.typed?
    refine .of_next fun a => ?_
    cases a with
    | none => exact .none
    | some a => exact gives_typed?_folded a _ none
  exact htyped.bind fun test htest => .of_next fun message => .pure htest

/-- An example or a default that is kept does not fail the test. -/
theorem gives_keepPassing_passes (arg : PlainArgument α) (what : String)
    (w : Option (WrittenValue α)) :
    Gives (keepPassing arg what w) fun kept =>
      ∀ x ∈ kept, x ∈ w ∧ arg.passes? x.value Canvas.declarations ≠ some false := by
  unfold keepPassing
  cases w with
  | none => exact .none
  | some w =>
      simp only
      split
      · exact .of_next fun _ => .none
      · next hpasses => exact .some ⟨Option.mem_some_self w, hpasses⟩

/-! ### Arguments -/

theorem gives_plainArgument?_read (tree : Tree) (e : Element) (isMember : Bool) :
    Gives (plainArgument? (α := α) tree e isMember) fun found => ∀ arg ∈ found, arg.IsRead := by
  unfold plainArgument?
  refine .of_next fun _ => .of_next fun a => ?_
  cases a with
  | none => exact .none
  | some a =>
      refine .of_next fun var => ?_
      cases var with
      | none => exact .none
      | some var =>
          refine .of_next fun type => .of_next fun optional => .of_next fun source => ?_
          refine (gives_argumentTest_folded e var _).bind fun test htest => ?_
          refine .of_next fun fallback => (gives_writtenValue?_read e _ _).bind fun sample hsample => ?_
          simp only
          split
          · refine .of_pure <| (gives_keepPassing_passes _ _ _).bind fun kept hkept => .some ?_
            exact ⟨fun w hw => hsample w (hkept w hw).1, fun w hw => (hkept w hw).2, htest⟩
          · refine .of_next fun _ =>
              (gives_keepPassing_passes _ _ _).bind fun kept hkept => .some ?_
            exact ⟨fun w hw => hsample w (hkept w hw).1, fun w hw => (hkept w hw).2, htest⟩

/-- What is read of each element that declares an argument holds of every argument. -/
theorem gives_declaredArguments_each {P : Argument α → Prop}
    (h : ∀ tree e tag, Gives (argument? tree e tag) fun found => ∀ arg ∈ found, P arg)
    (names vars : List String) (elements : List (Tree × Element × Tag)) :
    Gives (declaredArguments (α := α) names vars elements) fun arguments =>
      ∀ arg ∈ arguments, P arg := by
  induction elements generalizing names vars with
  | nil => exact .pure (List.forall_mem_nil _)
  | cons first rest ih =>
      obtain ⟨tree, e, tag⟩ := first
      unfold declaredArguments
      refine (h tree e tag).bind fun found hfound => ?_
      cases found with
      | none => exact ih names vars
      | some arg =>
          refine .of_next fun added => (ih _ _).bind fun more hmore => .pure ?_
          split
          · exact List.forall_mem_cons.mpr ⟨hfound arg rfl, hmore⟩
          · exact hmore

/-- The arguments of every pattern that is read are what is read of their texts. -/
theorem Document.isRead_bind (doc : Document) (o : BindOptions) {p : Pattern α}
    (hp : p ∈ (doc.bind o : BoundDocument α).patterns) {arg : PlainArgument α}
    (harg : .plain arg ∈ p.arguments) : arg.IsRead := by
  have hargument : ∀ tree e tag, Gives (argument? (α := α) tree e tag) fun found =>
      ∀ arg ∈ found, ∀ plain, arg = .plain plain → plain.IsRead := by
    intro tree e tag
    unfold argument?
    split
    · refine (gives_plainArgument?_read tree e false).bind fun found hfound => .pure ?_
      rintro arg hmem plain rfl
      obtain ⟨plain', hplain, heq⟩ := Option.map_eq_some_iff.mp hmem
      obtain rfl := Argument.plain.inj heq
      exact hfound plain' hplain
    · refine .of_next fun found => .pure ?_
      rintro arg hmem plain rfl
      obtain ⟨g, -, heq⟩ := Option.map_eq_some_iff.mp hmem
      cases heq
    · exact .none
  have hdeclares : Declares (α := α)
      (fun _ arguments => ∀ arg ∈ arguments, ∀ plain, arg = .plain plain → plain.IsRead)
      (fun _ _ => True) :=
    ⟨gives_declaredArguments_each hargument [] [], fun _ _ _ => trivial,
      fun _ => List.forall_mem_nil _, fun _ => trivial⟩
  obtain ⟨-, harguments, -⟩ := hdeclares.bind doc o hp
  exact harguments _ harg arg rfl

end PatternMarkup
