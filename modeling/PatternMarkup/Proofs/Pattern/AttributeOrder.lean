import Mathlib
import PatternMarkup.Number.Double
import PatternMarkup.Pattern.Bind.Document
import PatternMarkup.Proofs.Pattern.BindingOutcomes
import PatternMarkup.Proofs.Pattern.NumberedAttributes
/-!
Instances whose attributes are written in another order. They give the arguments of a pattern the
same values, as long as attributes that give a numbered argument one number stay in order.
-/

namespace PatternMarkup

/-- What is written in an attribute: its name and its value. -/
def InstanceAttribute.written (a : InstanceAttribute) : String × String := (a.name, a.value)

/-- What is written in the attributes that have a number after a name, in their order. -/
def writtenAt (name : String) (n : Nat) (attributes : List InstanceAttribute) :
    List (String × String) :=
  (attributes.filter fun a => numberAfter? name a.name == some n).map (·.written)

variable {α : Type}

/-- Two instances give the same, in whatever order. -/
structure Instance.GivesSame (i i' : Instance α) : Prop where
  entries : i.entries = i'.entries
  attributes : (i.attributes.map (·.written)).Perm (i'.attributes.map (·.written))
  distinct : (i.attributes.map (·.name)).Nodup

namespace Instance

variable {i i' : Instance α}

/-- The value of the first attribute of a name. -/
theorem value_attribute? (i : Instance α) (name : String) :
    (i.attribute? name).map (·.value) = Fields.get? name (i.attributes.map (·.written)) := by
  unfold attribute?
  induction i.attributes with
  | nil => rfl
  | cons a rest ih =>
      rw [List.map_cons, InstanceAttribute.written, Fields.get?, List.find?_cons]
      by_cases hname : a.name = name
      · rw [if_pos hname, beq_iff_eq.mpr hname]
        rfl
      · rw [if_neg hname, beq_eq_false_iff_ne.mpr hname]
        exact ih

theorem names_written (attributes : List InstanceAttribute) :
    (attributes.map (·.written)).map (·.1) = attributes.map (·.name) := by
  rw [List.map_map]
  rfl

theorem GivesSame.value_attribute?_eq (h : i.GivesSame i') (name : String) :
    (i.attribute? name).map (·.value) = (i'.attribute? name).map (·.value) := by
  have hnames : ((i.attributes.map (·.written)).map (·.1)).Nodup := by
    rw [names_written]
    exact h.distinct
  have hnames' := (h.attributes.map (·.1)).nodup_iff.mp hnames
  rw [value_attribute?, value_attribute?]
  refine Option.ext fun value => ⟨fun hget => ?_, fun hget => ?_⟩
  · exact Fields.get?_of_mem hnames' (h.attributes.mem_iff.mp (Fields.mem_of_get? hget))
  · exact Fields.get?_of_mem hnames (h.attributes.mem_iff.mpr (Fields.mem_of_get? hget))

end Instance

/-- The numbered attributes of a name are known from those of each number. -/
theorem written_numberedAttributes {name : String} {attributes attributes' : List InstanceAttribute}
    (h : ∀ n, writtenAt name n attributes = writtenAt name n attributes') :
    (numberedAttributes name attributes).map (fun t => (t.1, t.2.2.written)) =
      (numberedAttributes name attributes').map fun t => (t.1, t.2.2.written) := by
  have hsorted : ∀ attributes, ((numberedAttributes name attributes).map
      fun t => (t.1, t.2.2.written)).Pairwise fun x y => x.1 ≤ y.1 := by
    intro attributes
    rw [List.pairwise_map]
    refine (sorted_numberedAttributes name attributes).imp fun hbefore => ?_
    rw [numberedBefore_iff] at hbefore
    omega
  have hfilter : ∀ attributes n, ((numberedAttributes name attributes).map
      fun t => (t.1, t.2.2.written)).filter (·.1 == n) =
        (writtenAt name n attributes).map fun w => (n, w) := by
    intro attributes n
    rw [writtenAt, ← filter_numberedAttributes, List.map_map, List.map_map, List.filter_map]
    refine List.map_congr_left fun t ht => ?_
    have hn : t.1 = n := by simpa using (List.mem_filter.mp ht).2
    simp [hn]
  refine eq_of_filter_eq (hsorted _) (hsorted _) fun n => ?_
  rw [hfilter, hfilter, h]

variable [Number α] {i i' : Instance α}

namespace PlainArgument

theorem valueFrom?_congr (arg : PlainArgument α) (h : i.GivesSame i') (name : String)
    (hnumbered : arg.source = .numbered →
      ∀ n, writtenAt name n i.attributes = writtenAt name n i'.attributes) :
    arg.valueFrom? i name = arg.valueFrom? i' name := by
  unfold valueFrom?
  cases hsource : arg.source with
  | singular => simp only [h.value_attribute?_eq]
  | entry => simp only [h.entries]
  | numbered =>
      have htexts := congrArg (List.map (·.2.2)) (written_numberedAttributes (hnumbered hsource))
      rw [List.map_map, List.map_map] at htexts
      exact congrArg arg.listFrom? htexts

end PlainArgument

theorem Argument.valueFrom?_eq_of_givesSame {arg : Argument α} (hsound : arg.IsSound)
    (h : i.GivesSame i')
    (hnumbered : ∀ plain, arg = .plain plain → plain.source = .numbered →
      ∀ n, writtenAt plain.name n i.attributes = writtenAt plain.name n i'.attributes) :
    arg.valueFrom? i = arg.valueFrom? i' := by
  refine valueFrom?_congr fun r hr => r.arg.valueFrom?_congr h r.name fun hsource => ?_
  cases arg with
  | plain arg =>
      obtain rfl := List.mem_singleton.mp hr
      exact hnumbered arg rfl hsource
  | group g =>
      obtain ⟨m, hm, rfl⟩ := List.mem_map.mp hr
      exact nomatch (hsound.members m hm).2.symm.trans hsource

namespace Pattern

/-- The order in which attributes of different names are written makes no difference to the values
of a pattern's arguments. Only attributes that give one number to a numbered argument, such as
`x1` and `x01`, are told apart by their order. -/
theorem bindArguments_reordered (doc : Document) (o : BindOptions) {p : Pattern α}
    (hp : p ∈ (doc.bind o : BoundDocument α).patterns) (hentries : i.entries = i'.entries)
    (hattributes : (i.attributes.map (·.written)).Perm (i'.attributes.map (·.written)))
    (hdistinct : (i.attributes.map (·.name)).Nodup)
    (hnumbered : ∀ arg, .plain arg ∈ p.arguments → arg.source = .numbered →
      ∀ n, writtenAt arg.name n i.attributes = writtenAt arg.name n i'.attributes) :
    (p.bindArguments i).1 = (p.bindArguments i').1 := by
  have hsame : i.GivesSame i' := ⟨hentries, hattributes, hdistinct⟩
  have hvalues : ∀ arg ∈ p.arguments, arg.valueFrom? i = arg.valueFrom? i' := fun arg harg =>
    Argument.valueFrom?_eq_of_givesSame ((doc.areDeclared_bind o hp).sound arg harg) hsame
      fun plain hplain => hnumbered plain (hplain ▸ harg)
  rw [bindArguments_eq, bindArguments_eq]
  exact List.foldl_ext _ _ _ fun vs arg harg => by rw [hvalues arg harg]

/-- The names of the arguments of a pattern, and the values of variables, as they are written, for
two instances. -/
def givenTexts (p : Pattern α) (vars : List String) (i i' : Instance α) :
    List String × List (Option String × Option String) :=
  (p.arguments.map (·.name), vars.map fun var =>
    (((p.bindArguments i).1.constant? var).map (·.text),
      ((p.bindArguments i').1.constant? var).map (·.text)))

/-- A pattern with a numbered argument and one that is not. -/
def numberedSource : String :=
  "<pattern name='p' type='widget'>" ++
    "<arg name='x' type='int' numbered='true'/><arg name='y' type='int'/></pattern>"

/-- Attributes of one number, `x1` and `x01`, with others around them. -/
def scatteredInstance : Instance α :=
  (((({} : Instance α).withAttribute "x2" "20").withAttribute "x1" "10").withAttribute
    "y" "5").withAttribute "x01" "11"

/-- The same attributes in another order; `x01` still comes after `x1`. -/
def gatheredInstance : Instance α :=
  (((({} : Instance α).withAttribute "x1" "10").withAttribute "x01" "11").withAttribute
    "x2" "20").withAttribute "y" "5"

theorem givenTexts_scattered :
    ((Document.ofSource numberedSource false).bind {} : BoundDocument α).patterns.map
      (·.givenTexts ["x", "y"] scatteredInstance gatheredInstance) =
        [(["x", "y"], [(some "[10, 11, 20]", some "[10, 11, 20]"), (some "5", some "5")])] := by
  cbv

/-- An instance in two orders. -/
theorem bindArguments_reordered_numbered :
    ∃ p ∈ ((Document.ofSource numberedSource false).bind {} : BoundDocument Float).patterns,
      p.givenTexts ["x", "y"] scatteredInstance gatheredInstance =
        (["x", "y"], [(some "[10, 11, 20]", some "[10, 11, 20]"), (some "5", some "5")]) ∧
      (p.bindArguments scatteredInstance).1 = (p.bindArguments gatheredInstance).1 := by
  obtain ⟨p, hp, htexts⟩ := List.map_eq_singleton_iff.mp (givenTexts_scattered (α := Float))
  have hmem := hp ▸ List.mem_singleton_self p
  refine ⟨p, hmem, htexts, bindArguments_reordered _ {} hmem rfl ?_ ?_ ?_⟩
  · decide
  · decide
  · intro arg harg _ n
    have hname : arg.name ∈ ["x", "y"] :=
      (Prod.mk.inj htexts).1 ▸ List.mem_map_of_mem (f := (·.name)) harg
    have hnumbers : ∀ attributes, writtenAt arg.name n attributes =
        ((attributes.map fun a => (numberAfter? arg.name a.name, a.written)).filter
          (·.1 == some n)).map (·.2) := by
      intro attributes
      rw [List.filter_map, List.map_map]
      rfl
    rw [hnumbers, hnumbers]
    rcases List.mem_pair.mp hname with hx | hy
    · have hscattered : (scatteredInstance (α := Float)).attributes.map
            (fun a => (numberAfter? "x" a.name, a.written)) =
          [(some 2, "x2", "20"), (some 1, "x1", "10"), (none, "y", "5"), (some 1, "x01", "11")] := by
        decide
      have hgathered : (gatheredInstance (α := Float)).attributes.map
            (fun a => (numberAfter? "x" a.name, a.written)) =
          [(some 1, "x1", "10"), (some 1, "x01", "11"), (some 2, "x2", "20"), (none, "y", "5")] := by
        decide
      rw [hx, hscattered, hgathered]
      by_cases hone : 1 = n
      · subst hone
        rfl
      · by_cases htwo : 2 = n
        · subst htwo
          rfl
        · simp [hone, htwo]
    · have hscattered : (scatteredInstance (α := Float)).attributes.map
            (fun a => (numberAfter? "y" a.name, a.written)) =
          [(none, "x2", "20"), (none, "x1", "10"), (none, "y", "5"), (none, "x01", "11")] := by
        decide
      have hgathered : (gatheredInstance (α := Float)).attributes.map
            (fun a => (numberAfter? "y" a.name, a.written)) =
          [(none, "x1", "10"), (none, "x01", "11"), (none, "x2", "20"), (none, "y", "5")] := by
        decide
      rw [hy, hscattered, hgathered]
      rfl

theorem givenTexts_equalNumbers :
    let i := (({} : Instance α).withAttribute "x1" "10").withAttribute "x01" "11"
    let i' := (({} : Instance α).withAttribute "x01" "11").withAttribute "x1" "10"
    ((Document.ofSource numberedSource false).bind {} : BoundDocument α).patterns.map
      (·.givenTexts ["x"] i i') = [(["x", "y"], [(some "[10, 11]", some "[11, 10]")])] := by
  cbv

/-- Two attributes of one number, in two orders. -/
theorem bindArguments_swapped :
    let i := (({} : Instance Float).withAttribute "x1" "10").withAttribute "x01" "11"
    let i' := (({} : Instance Float).withAttribute "x01" "11").withAttribute "x1" "10"
    ∃ p ∈ ((Document.ofSource numberedSource false).bind {} : BoundDocument Float).patterns,
      i.entries = i'.entries ∧ (i.attributes.map (·.written)).Perm (i'.attributes.map (·.written)) ∧
      (i.attributes.map (·.name)).Nodup ∧
      (p.bindArguments i).1 ≠ (p.bindArguments i').1 ∧
      p.givenTexts ["x"] i i' = (["x", "y"], [(some "[10, 11]", some "[11, 10]")]) := by
  intro i i'
  obtain ⟨p, hp, htexts⟩ := List.map_eq_singleton_iff.mp (givenTexts_equalNumbers (α := Float))
  refine ⟨p, hp ▸ List.mem_singleton_self p, rfl, by decide, by decide, fun heq => ?_, htexts⟩
  have hconstants := (Prod.mk.inj htexts).2
  rw [List.map_singleton, heq, List.singleton_inj] at hconstants
  obtain ⟨h, h'⟩ := Prod.mk.inj hconstants
  exact absurd (h.symm.trans h') (by decide)

end Pattern

end PatternMarkup
