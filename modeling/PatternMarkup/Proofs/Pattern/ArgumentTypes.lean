import PatternMarkup.Pattern.InstanceBinding
import PatternMarkup.Proofs.Pattern.DeclaredArguments
/-!
The types of the values that an instance gives. Wherever a value comes from, a constant is in the
form of the argument's type; there is one value for the variable of each argument.
-/

namespace PatternMarkup

namespace InstanceBinder

variable {β γ : Type} {P : β → Prop} {Q : γ → Prop}

/-- Whatever was found before, the result of a step has a property. -/
def Gives (step : InstanceBinder β) (P : β → Prop) : Prop := ∀ r, P (step r).1

theorem Gives.pure {x : β} (h : P x) : Gives (Pure.pure x) P := fun _ => h

theorem Gives.bind {step : InstanceBinder β} {next : β → InstanceBinder γ} (h : Gives step P)
    (hnext : ∀ x, P x → Gives (next x) Q) : Gives (step >>= next) Q :=
  fun r => hnext _ (h r) _

theorem Gives.of_next {step : InstanceBinder β} {next : β → InstanceBinder γ}
    (hnext : ∀ x, Gives (next x) Q) : Gives (step >>= next) Q :=
  fun _ => hnext _ _

theorem Gives.none : Gives (Pure.pure none) fun found => ∀ x ∈ found, P x :=
  .pure fun x hx => absurd hx (Option.not_mem_none x)

theorem Gives.some {x : β} (h : P x) : Gives (Pure.pure (some x)) fun found => ∀ y ∈ found, P y :=
  .pure fun _ hy => Option.mem_some_iff.mp hy ▸ h

end InstanceBinder

open InstanceBinder

theorem exists_of_mapM_cons_eq_some {β γ : Type} {f : β → Option γ} {x : β} {xs : List β}
    {ys : List γ} (h : (x :: xs).mapM f = some ys) :
    ∃ y rest, f x = some y ∧ xs.mapM f = some rest ∧ ys = y :: rest := by
  rw [List.mapM_cons] at h
  obtain ⟨y, hy, h⟩ := Option.bind_eq_some_iff.mp h
  obtain ⟨rest, hrest, h⟩ := Option.bind_eq_some_iff.mp h
  exact ⟨y, rest, hy, hrest, (Option.some.inj h).symm⟩

theorem exists_of_mem_of_mapM_eq_some {β γ : Type} {f : β → Option γ} {xs : List β} {ys : List γ}
    (h : xs.mapM f = some ys) {y : γ} (hy : y ∈ ys) : ∃ x ∈ xs, f x = some y := by
  induction xs generalizing ys with
  | nil =>
      obtain rfl := Option.some.inj h
      cases hy
  | cons x xs ih =>
      obtain ⟨first, rest, hfirst, hrest, rfl⟩ := exists_of_mapM_cons_eq_some h
      rcases List.mem_cons.mp hy with rfl | hy
      · exact ⟨x, List.mem_cons_self, hfirst⟩
      · obtain ⟨x', hx', hy⟩ := ih hrest hy
        exact ⟨x', List.mem_cons_of_mem x hx', hy⟩

variable {α : Type} [Number α]

/-! ### Values and their constants -/

/-- The expressions in a value are in the forms that a type asks for; a group has a field for each
field of the type. -/
def ArgumentValue.IsInForm (type : ValueType) : ArgumentValue α → Prop
  | .single e => e.IsInForm type
  | .group members => ∃ fields, type = .record fields ∧ (fields.map (·.1)).Nodup ∧
      Fields.SideBySide Expression.IsInForm members fields

theorem isInForm_constant {v : Value α} {type : ValueType} (h : v.coerce type = .ok v) :
    (Expression.constant v).IsInForm type := by
  intro w hw
  obtain rfl := Expression.constant.inj hw
  exact h

theorem isInForm_formula {f : Formula α} {type : ValueType} :
    (Expression.formula f : Expression α (Value α)).IsInForm type := nofun

omit [Number α] in
theorem eq_constant_of_constant?_eq_some {e : Expression α (Value α)} {v : Value α}
    (h : e.constant? = some v) : e = .constant v := by
  cases e with
  | constant w => exact congrArg Expression.constant (Option.some.inj h)
  | formula f => cases h

theorem coerceItems_of_forall {type : ValueType} {values : List (Value α)}
    (h : ∀ v ∈ values, v.coerce type = .ok v) : Value.coerceItems type values = .ok values := by
  induction values with
  | nil => rfl
  | cons first rest ih =>
      obtain ⟨hfirst, hrest⟩ := List.forall_mem_cons.mp h
      rw [Value.coerceItems, hfirst, ih hrest]
      rfl

theorem coerceFields_of_forall {owner : ValueType} {fields : List (String × ValueType)}
    {values : List (String × Value α)}
    (h : ∀ name v, (name, v) ∈ values →
      ∃ type, Fields.get? name fields = some type ∧ v.coerce type = .ok v) :
    Value.coerceFields owner fields values = .ok values := by
  induction values with
  | nil => rfl
  | cons value rest ih =>
      obtain ⟨name, first⟩ := value
      obtain ⟨type, hget, hfirst⟩ := h name first List.mem_cons_self
      rw [Value.coerceFields, hget]
      simp only [hfirst, ih fun other v hv => h other v (List.mem_cons_of_mem _ hv)]
      rfl

/-- A list of expressions in the form of a type. -/
theorem isInForm_ofItems {type : ValueType} {items : List (Expression α (Value α))}
    (h : ∀ e ∈ items, e.IsInForm type) : (Expression.ofItems type items).IsInForm (.list type) := by
  unfold Expression.ofItems
  split
  · next values hvalues =>
      have hforms : ∀ v ∈ values, v.coerce type = .ok v := by
        intro v hv
        obtain ⟨e, he, hconstant⟩ := exists_of_mem_of_mapM_eq_some hvalues hv
        exact h e he v (eq_constant_of_constant?_eq_some hconstant)
      refine isInForm_constant ?_
      rw [Value.coerce, coerceItems_of_forall hforms]
      rfl
  · exact isInForm_formula

open Fields in
/-- The members of a group that are constants. -/
theorem sideBySide_of_resolveMembers {s : Scope α}
    {members : List (String × Expression α (Value α))} {fields : List (String × ValueType)}
    (h : SideBySide Expression.IsInForm members fields)
    (hconstant : members.all (·.2.isConstant) = true) {values : List (String × Value α)}
    (hvalues : ArgumentValue.resolveMembers s members = .ok values) :
    SideBySide (fun v type => v.coerce type = .ok v) values fields := by
  induction h generalizing values with
  | nil =>
      obtain rfl := Except.ok.inj hvalues
      exact .nil
  | @cons member field rest rest' hfirst hrest ih =>
      obtain ⟨name, e⟩ := member
      rw [List.all_cons, Bool.and_eq_true] at hconstant
      rw [ArgumentValue.resolveMembers] at hvalues
      obtain ⟨v, hv, hvalues⟩ := FormulaParser.exists_of_bind_eq_ok hvalues
      obtain ⟨vs, hvs, hvalues⟩ := FormulaParser.exists_of_bind_eq_ok hvalues
      obtain rfl := Except.ok.inj hvalues
      obtain ⟨w, hw⟩ := Option.isSome_iff_exists.mp hconstant.1
      obtain rfl := eq_constant_of_constant?_eq_some hw
      obtain rfl := Except.ok.inj hv
      exact .cons ⟨hfirst.1, hfirst.2 w rfl⟩ (ih hconstant.2 hvs)

/-- What a variable holds as a constant is in the form of its type. -/
theorem ArgumentValue.IsInForm.resolve {type : ValueType} {value : ArgumentValue α}
    (h : value.IsInForm type) (hconstant : value.isConstant = true) {s : Scope α}
    {e : Expression α (Value α)} (he : value.resolve s = .ok e) : e.IsInForm type := by
  cases value with
  | single e' =>
      obtain rfl := Except.ok.inj he
      exact h
  | group members =>
      obtain ⟨fields, rfl, hnodup, hmembers⟩ := h
      obtain ⟨values, hvalues, he⟩ := FormulaParser.exists_of_bind_eq_ok he
      obtain rfl := Except.ok.inj he
      have hsides := sideBySide_of_resolveMembers hmembers hconstant hvalues
      have hfields : Value.coerceFields (.record fields) fields values = .ok values := by
        refine coerceFields_of_forall fun name v hv => ?_
        obtain ⟨type, htype, hform⟩ := hsides.exists_of_mem hv
        exact ⟨type, Fields.get?_of_mem hnodup htype, hform⟩
      refine isInForm_constant ?_
      rw [Value.coerce, if_pos hsides.length_eq.symm, hfields]
      rfl

/-! ### Single arguments -/

theorem gives_read (a : InstanceAttribute) (type : ValueType) :
    Gives (a.read (α := α) type) fun found => ∀ e ∈ found, e.IsInForm type := by
  unfold InstanceAttribute.read
  simp only
  split
  · exact .of_next fun _ => .none
  · next e hread =>
      split
      · exact .some (isInForm_of_readTyped hread)
      · exact .of_next fun _ => .none

namespace PlainArgument

variable {arg : PlainArgument α}

omit [Number α] in
/-- A required argument has no default. -/
theorem fallback_of_isRequired (h : arg.isRequired = true) : arg.fallback = none :=
  Option.isNone_iff_eq_none.mp (Bool.and_eq_true_iff.mp h).2

/-- The default of an argument whose value is one item. -/
theorem IsSound.isInForm_fallback (h : arg.IsSound) (hsource : arg.source ≠ .numbered)
    {w : WrittenValue α} (hw : w ∈ arg.fallback) :
    (ArgumentValue.single w.value).IsInForm arg.bindingType := by
  have htype : arg.bindingType = arg.type := by
    unfold bindingType
    split
    · next hnumbered => exact absurd hnumbered hsource
    · rfl
  rw [htype]
  exact h.fallback w hw

theorem gives_fallBack (h : arg.IsSound) (hsource : arg.source ≠ .numbered) :
    Gives arg.fallBack fun found => ∀ value ∈ found, value.IsInForm arg.bindingType := by
  unfold fallBack
  split
  · next w hw => exact .some (h.isInForm_fallback hsource hw)
  · exact .of_next fun _ => .none

/-- A numbered argument that has a default is never missing. -/
theorem gives_missing (h : arg.IsSound)
    (hsource : arg.source = .numbered → arg.fallback = none) (name : String) :
    Gives (arg.missing name) fun found => ∀ value ∈ found, value.IsInForm arg.bindingType := by
  unfold missing
  split
  · next w hw =>
      refine .some (h.isInForm_fallback (fun hnumbered => ?_) hw)
      rw [hsource hnumbered] at hw
      cases hw
  · simp only
    split
    · exact .none
    · exact .of_next fun _ => .none

theorem gives_bindSingular (h : arg.IsSound) (hsource : arg.source = .singular) (i : Instance α)
    (name : String) :
    Gives (arg.bindSingular i name) fun found =>
      ∀ value ∈ found, value.IsInForm arg.bindingType := by
  have hnumbered : arg.source ≠ .numbered := by simp [hsource]
  unfold bindSingular
  split
  · refine .of_next fun _ => (gives_read _ _).bind fun found hfound => ?_
    cases found with
    | none => exact gives_fallBack h hnumbered
    | some e =>
        refine .some ?_
        rw [bindingType, hsource]
        exact hfound e rfl
  · exact gives_missing h (fun hsource' => absurd hsource' hnumbered) name

theorem gives_bindItems (h : arg.IsSound) (name : String) (expected : Nat)
    (numbered : List (Nat × Nat × InstanceAttribute)) :
    Gives (arg.bindItems name expected numbered) fun items =>
      ∀ item ∈ items, ∀ e ∈ item, e.IsInForm arg.type := by
  induction numbered generalizing expected with
  | nil => exact .pure (List.forall_mem_nil _)
  | cons first rest ih =>
      obtain ⟨n, index, a⟩ := first
      have hitem : Gives (do
            let item ← a.read arg.type
            return item.or (arg.fallback.map (·.value)) ::
              (← arg.bindItems name (nextNumber n) rest)) fun items =>
          ∀ item ∈ items, ∀ e ∈ item, e.IsInForm arg.type := by
        refine (gives_read a arg.type).bind fun item hitem => (ih _).bind fun items hitems => ?_
        refine .pure (List.forall_mem_cons.mpr ⟨fun e he => ?_, hitems⟩)
        cases item with
        | some e' => exact hitem e he
        | none =>
            obtain ⟨w, hw, rfl⟩ := Option.map_eq_some_iff.mp he
            exact h.fallback w hw
      unfold bindItems
      refine .of_next fun _ => ?_
      simp only
      split
      · exact .of_next fun _ => hitem
      · exact hitem

theorem gives_bindNumbered (h : arg.IsSound) (hsource : arg.source = .numbered) (i : Instance α)
    (name : String) :
    Gives (arg.bindNumbered i name) fun found =>
      ∀ value ∈ found, value.IsInForm arg.bindingType := by
  have htype : arg.bindingType = .list arg.type := by rw [bindingType, hsource]
  unfold bindNumbered
  split
  · split
    · next hrequired =>
        exact gives_missing h (fun _ => fallback_of_isRequired hrequired) _
    · refine .some ?_
      rw [htype]
      exact isInForm_constant rfl
  · refine (gives_bindItems h name 1 _).bind fun items hitems => ?_
    split
    · next found hfound =>
        refine .some ?_
        rw [htype]
        refine isInForm_ofItems fun e he => ?_
        obtain ⟨item, hitem, rfl⟩ := exists_of_mem_of_mapM_eq_some hfound he
        exact hitems _ hitem e rfl
    · exact .of_next fun _ => .none

theorem gives_bindEntry (h : arg.IsSound) (hsource : arg.source = .entry) (i : Instance α) :
    Gives (arg.bindEntry i) fun found => ∀ value ∈ found, value.IsInForm arg.bindingType := by
  have hnumbered : arg.source ≠ .numbered := by simp [hsource]
  unfold bindEntry
  split
  · exact gives_missing h (fun hsource' => absurd hsource' hnumbered) _
  · next v hv =>
      split
      · next w hw =>
          refine .some ?_
          rw [bindingType, hsource]
          exact isInForm_constant (v.coerce_coerce hw)
      · exact .of_next fun _ => gives_fallBack h hnumbered

theorem gives_bind (h : arg.IsSound) (i : Instance α) (name : String) :
    Gives (arg.bind i name) fun found => ∀ value ∈ found, value.IsInForm arg.bindingType := by
  unfold bind
  split
  · next hsource => exact gives_bindSingular h hsource i name
  · next hsource => exact gives_bindNumbered h hsource i name
  · next hsource => exact gives_bindEntry h hsource i

end PlainArgument

/-! ### Groups -/

/-- A group that has all its members has a value for the variable of each. -/
theorem gives_bindMembers (i : Instance α) (name : String) {members : List (PlainArgument α)}
    (h : ∀ m ∈ members, m.IsSound) :
    Gives (bindMembers i name members) fun fields => ∀ found, fields.mapM id = some found →
      Fields.SideBySide Expression.IsInForm found
        (members.map fun m => (m.var, m.bindingType)) := by
  induction members with
  | nil =>
      refine .pure fun found hfound => ?_
      obtain rfl := Option.some.inj hfound
      exact .nil
  | cons m rest ih =>
      obtain ⟨hm, hrest⟩ := List.forall_mem_cons.mp h
      unfold bindMembers
      refine (PlainArgument.gives_bind hm i _).bind fun value hvalue =>
        (ih hrest).bind fun fields hfields => .pure fun found hfound => ?_
      obtain ⟨field, rest', hfield, hrest', rfl⟩ := exists_of_mapM_cons_eq_some hfound
      refine .cons ?_ (hfields rest' hrest')
      rcases value with _ | ⟨e⟩ | ⟨members⟩
      · cases hfield
      · obtain rfl := Option.some.inj hfield
        exact ⟨rfl, hvalue _ rfl⟩
      · cases hfield

/-- The value of an argument, if there is one, is in the form of its type. -/
def Argument.Fits (arg : Argument α) (value : Option (ArgumentValue α)) : Prop :=
  ∀ x ∈ value, x.IsInForm arg.bindingType

theorem Argument.gives_bind {arg : Argument α} (h : arg.IsSound) (i : Instance α) :
    Gives (arg.bind i) arg.Fits := by
  cases arg with
  | plain arg => exact PlainArgument.gives_bind h i arg.name
  | group g =>
      unfold Argument.bind
      refine (gives_bindMembers i g.name fun m hm => (h.members m hm).1).bind
        fun fields hfields => .pure fun value hvalue => ?_
      obtain ⟨found, hfound, rfl⟩ := Option.map_eq_some_iff.mp hvalue
      exact ⟨_, rfl, Fields.nodup_ofList _, (hfields found hfound).ofList⟩

/-! ### All arguments of a pattern -/

/-- The values are those of some arguments: one for each, with a property. -/
structure ArgumentValues.AreOf (P : Argument α → Option (ArgumentValue α) → Prop)
    (vs : ArgumentValues α) (arguments : List (Argument α)) : Prop where
  names : (vs.values.map (·.1)).Perm (arguments.map (·.var))
  values : ∀ arg ∈ arguments, ∃ value, vs.get? arg.var = some ⟨arg.bindingType, value⟩ ∧
    P arg value

section

variable {P : Argument α → Option (ArgumentValue α) → Prop} {vs : ArgumentValues α}
  {arguments : List (Argument α)}

namespace ArgumentValues

omit [Number α]

/-- One more argument, whose variable is new. -/
theorem AreOf.insert (h : vs.AreOf P arguments) {arg : Argument α}
    (hnew : arg.var ∉ arguments.map (·.var)) {value : Option (ArgumentValue α)}
    (hvalue : P arg value) : (vs.insert arg value).AreOf P (arg :: arguments) := by
  have hfresh : arg.var ∉ vs.values.map (·.1) := fun hmem => hnew (h.names.mem_iff.mp hmem)
  constructor
  · exact (Fields.names_insert_perm hfresh _).trans (h.names.cons _)
  · have hself : ∃ x, (vs.insert arg value).get? arg.var = some ⟨arg.bindingType, x⟩ ∧ P arg x :=
      ⟨value, Fields.get?_insert_self .., hvalue⟩
    refine List.forall_mem_cons.mpr ⟨hself, fun other hother => ?_⟩
    obtain ⟨value', hget, hvalue'⟩ := h.values other hother
    refine ⟨value', ?_, hvalue'⟩
    have hne : other.var ≠ arg.var := fun heq => hnew (heq ▸ List.mem_map_of_mem hother)
    exact (Fields.get?_insert_of_ne hne ..).trans hget

theorem AreOf.perm {arguments' : List (Argument α)} (h : vs.AreOf P arguments)
    (hperm : arguments.Perm arguments') : vs.AreOf P arguments' :=
  ⟨h.names.trans (hperm.map _), fun arg harg => h.values arg (hperm.mem_iff.mpr harg)⟩

end ArgumentValues

theorem gives_bindAll (i : Instance α) {before : List (Argument α)}
    (hbind : ∀ arg ∈ arguments, Gives (arg.bind i) (P arg))
    (hdistinct : ((before ++ arguments).map (·.var)).Nodup) (hvs : vs.AreOf P before) :
    Gives (bindAll i vs arguments) fun found => found.AreOf P (before ++ arguments) := by
  induction arguments generalizing vs before with
  | nil => exact .pure (by rwa [List.append_nil])
  | cons arg rest ih =>
      obtain ⟨hfirst, hrest⟩ := List.forall_mem_cons.mp hbind
      unfold bindAll
      refine hfirst.bind fun value hvalue => ?_
      have hperm : (before ++ [arg]).Perm (arg :: before) := List.perm_append_singleton arg before
      have hnew : arg.var ∉ before.map (·.var) := by
        rw [List.map_append, List.map_cons, List.nodup_append] at hdistinct
        intro hmem
        exact hdistinct.2.2 _ hmem _ List.mem_cons_self rfl
      rw [List.append_cons] at hdistinct ⊢
      exact ih hrest hdistinct ((hvs.insert hnew hvalue).perm hperm.symm)

/-- What holds of the value of each argument holds of the values of all. -/
theorem Pattern.areOf_bindArguments (p : Pattern α) (i : Instance α)
    (hdistinct : (p.arguments.map (·.var)).Nodup)
    (hbind : ∀ arg ∈ p.arguments, Gives (arg.bind i) (P arg)) :
    (p.bindArguments i).1.AreOf P p.arguments := by
  have hnone : ({} : ArgumentValues α).AreOf P [] := ⟨.refl _, List.forall_mem_nil _⟩
  have hbound : Gives (bindAll i {} p.arguments) fun found => found.AreOf P p.arguments :=
    gives_bindAll i hbind hdistinct hnone
  exact (hbound.bind fun vs hvs => .of_next fun _ => .of_next fun _ => .pure hvs :
    Gives (do
      let vs ← bindAll i {} p.arguments
      reportStrangers p.qualifiedName i
      runTests p i (vs.scope Canvas.declarations)
      return vs) fun found => found.AreOf P p.arguments) {}

end

theorem ArgumentValues.AreOf.coerce_constant? {vs : ArgumentValues α}
    {arguments : List (Argument α)} (h : vs.AreOf Argument.Fits arguments) {arg : Argument α}
    (harg : arg ∈ arguments) {v : Value α} (hv : vs.constant? arg.var = some v) :
    v.coerce arg.bindingType = .ok v := by
  obtain ⟨value, hget, hforms⟩ := h.values arg harg
  unfold constant? at hv
  obtain ⟨bound, hbound, hbody⟩ := Option.bind_eq_some_iff.mp hv
  obtain ⟨x, hx, hfound⟩ := Option.bind_eq_some_iff.mp hbody
  obtain rfl := Option.some.inj (hget.symm.trans hbound)
  split at hfound
  · next hconstant =>
      obtain ⟨e, he, hfound⟩ := Option.bind_eq_some_iff.mp hfound
      have hresolve : x.resolve .empty = .ok e := by
        cases hx' : x.resolve .empty with
        | error err => simp [hx', Except.toOption] at he
        | ok e' =>
            rw [hx'] at he
            exact congrArg Except.ok (Option.some.inj he)
      exact (hforms x hx).resolve hconstant hresolve v (eq_constant_of_constant?_eq_some hfound)
  · cases hfound

/-- An instance gives the variable of each argument of a pattern one value, and a value that is a
constant is in the form of the argument's type. -/
theorem Pattern.bindArguments_types (doc : Document) (o : BindOptions) {p : Pattern α}
    (hp : p ∈ (doc.bind o : BoundDocument α).patterns) (i : Instance α) :
    let vs := (p.bindArguments i).1
    (p.arguments.map (·.var)).Nodup ∧ (vs.values.map (·.1)).Perm (p.arguments.map (·.var)) ∧
      ∀ arg ∈ p.arguments, (∃ value, vs.get? arg.var = some ⟨arg.bindingType, value⟩) ∧
        ∀ v, vs.constant? arg.var = some v → v.coerce arg.bindingType = .ok v := by
  intro vs
  have hdeclared := doc.areDeclared_bind o hp
  have hvs : vs.AreOf Argument.Fits p.arguments := p.areOf_bindArguments i hdeclared.distinct
    fun arg harg => Argument.gives_bind (hdeclared.sound arg harg) i
  refine ⟨hdeclared.distinct, hvs.names, fun arg harg => ⟨?_, fun v => hvs.coerce_constant? harg⟩⟩
  obtain ⟨value, hget, -⟩ := hvs.values arg harg
  exact ⟨value, hget⟩

/-- A numbered argument without items, an entry, and a group: the entry, which is an integer,
becomes text, and the default of a member stands for a wrong value. -/
theorem Pattern.bindArguments_types_mixed :
    let doc := Document.ofSource ("<pattern name='p' type='widget'>" ++
      "<arg name='x' type='int' numbered='true' optional='true'/>" ++
      "<arg name='y' type='string' entry='true'/>" ++
      "<args name='g'><arg name='a' type='int' default='7'/></args></pattern>") false
    let i := (({} : Instance Float).withAttribute "g-a" "oops").withEntry "y" (.int 5)
    ∃ p ∈ (doc.bind {} : BoundDocument Float).patterns,
      let vs := (p.bindArguments i).1
      (["g", "x", "y"].map fun var => (vs.constant? var).map (·.text))
        = [some "\x7ba: 7\x7d", some "[]", some "5"] ∧
      (p.arguments.map (·.var)).Nodup ∧ (vs.values.map (·.1)).Perm (p.arguments.map (·.var)) ∧
        ∀ arg ∈ p.arguments, (∃ value, vs.get? arg.var = some ⟨arg.bindingType, value⟩) ∧
          ∀ v, vs.constant? arg.var = some v → v.coerce arg.bindingType = .ok v := by
  intro doc i
  have hvalues : (doc.bind {} : BoundDocument Float).patterns.map (fun p =>
      ["g", "x", "y"].map fun var => ((p.bindArguments i).1.constant? var).map (·.text))
        = [[some "\x7ba: 7\x7d", some "[]", some "5"]] := by
    decide +kernel
  obtain ⟨p, hp, htexts⟩ := List.map_eq_singleton_iff.mp hvalues
  have hmem : p ∈ (doc.bind {} : BoundDocument Float).patterns := hp ▸ List.mem_singleton_self p
  exact ⟨p, hmem, htexts, Pattern.bindArguments_types doc {} hmem i⟩

end PatternMarkup
