import Mathlib
import PatternMarkup.Number.Double
import PatternMarkup.Pattern.Bind.Document
import PatternMarkup.Proofs.Pattern.AttributeOrder
import PatternMarkup.Proofs.Pattern.BindingOutcomes
/-!
Which argument an attribute of an instance is for. It makes a difference only to the arguments that
read an attribute of its name, and it is reported if there are none.
-/

namespace PatternMarkup

open InstanceBinder Binder

variable {α : Type}

/-- Whether an attribute of a name is one of those that are read. -/
def AttributeReader.seeks (r : AttributeReader α) (given : String) : Bool :=
  match r.arg.source with
  | .singular => given == r.name
  | .numbered => (numberAfter? r.name given).isSome
  | .entry => false

/-- Whether an argument, or a member of it, reads an attribute of a name. -/
def Argument.seeks (arg : Argument α) (given : String) : Bool :=
  arg.readers.any (·.seeks given)

/-! ### The attributes that are taken -/

variable {i : Instance α}

theorem findIdx?_name_eq_some_iff {attributes : List InstanceAttribute}
    (hdistinct : (attributes.map (·.name)).Nodup) {name : String} {index : Nat} :
    attributes.findIdx? (·.name == name) = some index ↔
      ∃ a, attributes[index]? = some a ∧ a.name = name := by
  rw [List.findIdx?_eq_some_iff_getElem]
  constructor
  · rintro ⟨hindex, hname, -⟩
    exact ⟨_, List.getElem?_eq_getElem hindex, beq_iff_eq.mp hname⟩
  · rintro ⟨a, ha, rfl⟩
    obtain ⟨hindex, rfl⟩ := List.getElem?_eq_some_iff.mp ha
    refine ⟨hindex, beq_self_eq_true _, fun earlier hlt hname => ?_⟩
    have hapart := List.pairwise_iff_getElem.mp (List.pairwise_map.mp hdistinct) earlier index
      (hlt.trans hindex) hindex hlt
    exact hapart (beq_iff_eq.mp hname)

/-- A reader takes the attributes that it seeks. -/
theorem AttributeReader.mem_takes (hdistinct : (i.attributes.map (·.name)).Nodup)
    {r : AttributeReader α} {index : Nat} :
    index ∈ r.takes i ↔ ∃ a, i.attributes[index]? = some a ∧ r.seeks a.name = true := by
  unfold takes PlainArgument.takes seeks
  cases r.arg.source with
  | singular =>
      simp only [Option.mem_toList, beq_iff_eq]
      exact findIdx?_name_eq_some_iff hdistinct
  | numbered =>
      rw [List.mem_map]
      constructor
      · rintro ⟨t, ht, rfl⟩
        obtain ⟨ha, hnumber⟩ := mem_numberedAttributes.mp ht
        exact ⟨t.2.2, ha, Option.isSome_iff_exists.mpr ⟨t.1, hnumber⟩⟩
      · rintro ⟨a, ha, hsome⟩
        obtain ⟨n, hn⟩ := Option.isSome_iff_exists.mp hsome
        exact ⟨(n, index, a), mem_numberedAttributes.mpr ⟨ha, hn⟩, rfl⟩
  | entry => simp

theorem Pattern.mem_takes (hdistinct : (i.attributes.map (·.name)).Nodup) {p : Pattern α}
    {index : Nat} {a : InstanceAttribute} (ha : i.attributes[index]? = some a) :
    index ∈ p.takes i ↔ ∃ arg ∈ p.arguments, arg.seeks a.name = true := by
  simp only [takes, Argument.takes, Argument.seeks, List.mem_flatMap, List.any_eq_true,
    AttributeReader.mem_takes hdistinct, ha, Option.some.injEq, exists_eq_left']

/-! ### Changing an attribute -/

/-- The instance with another value in the attribute at a position. -/
def Instance.setValue (i : Instance α) (index : Nat) (value : String) : Instance α :=
  { i with attributes := i.attributes.modify index fun a => { a with value } }

/-- Two attributes have the same name, and the same value if the name is one of some. -/
def AgreeOn (sought : String → Bool) (a a' : InstanceAttribute) : Prop :=
  a.name = a'.name ∧ (sought a.name = true → a.value = a'.value)

variable {sought : String → Bool}

theorem AgreeOn.refl (a : InstanceAttribute) : AgreeOn sought a a := ⟨rfl, fun _ => rfl⟩

theorem agreeOn_modify {attributes : List InstanceAttribute} {index : Nat} {value : String}
    (h : ∀ a, attributes[index]? = some a → sought a.name = false) :
    List.Forall₂ (AgreeOn sought) (attributes.modify index fun a => { a with value })
      attributes := by
  induction attributes generalizing index with
  | nil => simp
  | cons a rest ih =>
      cases index with
      | zero =>
          refine .cons ⟨rfl, fun hsought => ?_⟩ (List.forall₂_same.mpr fun a _ => .refl a)
          exact nomatch hsought.symm.trans (h a rfl)
      | succ index =>
          rw [List.modify_succ_cons]
          exact .cons (.refl a) (ih fun b hb => h b hb)

theorem written_filter_of_agreeOn {attributes attributes' : List InstanceAttribute}
    (h : List.Forall₂ (AgreeOn sought) attributes attributes') {q : String → Bool}
    (hq : ∀ name, q name = true → sought name = true) :
    (attributes.filter fun a => q a.name).map (·.written) =
      (attributes'.filter fun a => q a.name).map (·.written) := by
  induction h with
  | nil => rfl
  | @cons a a' _ _ hagree _ ih =>
      obtain ⟨hname, hvalue⟩ := hagree
      rw [List.filter_cons, List.filter_cons, ← hname]
      by_cases hqa : q a.name = true
      · have hwritten : a.written = a'.written := by
          rw [InstanceAttribute.written, InstanceAttribute.written, hname, hvalue (hq _ hqa)]
        rw [if_pos hqa, if_pos hqa, List.map_cons, List.map_cons, hwritten, ih]
      · rw [if_neg hqa, if_neg hqa, ih]

variable [Number α] {i' : Instance α}

/-- A reader is given the same by attributes that agree on what it seeks. -/
theorem AttributeReader.valueFrom?_of_agreeOn {r : AttributeReader α}
    (hentries : i.entries = i'.entries)
    (h : List.Forall₂ (AgreeOn r.seeks) i.attributes i'.attributes) :
    r.valueFrom? i = r.valueFrom? i' := by
  unfold valueFrom? PlainArgument.valueFrom?
  cases hsource : r.arg.source with
  | singular =>
      have hfound := written_filter_of_agreeOn (q := (· == r.name)) h fun name hname => by
        rwa [seeks, hsource]
      have hfirst : ∀ i : Instance α, (i.attribute? r.name).map (·.value) =
          ((i.attributes.filter fun a => a.name == r.name).map (·.written)).head?.map (·.2) := by
        intro i
        rw [List.head?_map, List.head?_filter, Option.map_map]
        rfl
      simp only [hfirst, hfound]
  | numbered =>
      have hnumbered : ∀ n, writtenAt r.name n i.attributes = writtenAt r.name n i'.attributes :=
        fun n => written_filter_of_agreeOn (q := (numberAfter? r.name · == some n)) h
          fun name hname => by
            rw [seeks, hsource, eq_of_beq hname]
            rfl
      have htexts := congrArg (List.map (·.2.2)) (written_numberedAttributes hnumbered)
      rw [List.map_map, List.map_map] at htexts
      exact congrArg r.arg.listFrom? htexts
  | entry => simp only [hentries]

/-- An attribute is of no use to an argument that does not seek its name. -/
theorem Argument.valueFrom?_setValue {arg : Argument α} {index : Nat} {a : InstanceAttribute}
    (ha : i.attributes[index]? = some a) (hseeks : arg.seeks a.name = false) (value : String) :
    arg.valueFrom? (i.setValue index value) = arg.valueFrom? i := by
  refine valueFrom?_congr fun r hr => AttributeReader.valueFrom?_of_agreeOn rfl ?_
  refine agreeOn_modify fun b hb => ?_
  obtain rfl := Option.some.inj (ha.symm.trans hb)
  exact Bool.eq_false_iff.mpr fun hsought =>
    absurd (List.any_eq_true.mpr ⟨r, hr, hsought⟩) (Bool.eq_false_iff.mp hseeks)

/-! ### Names of arguments -/

omit [Number α] in
theorem gives_addArgument_name (names vars : List String) (arg : Argument α) :
    Binder.Gives (addArgument names vars arg) fun added =>
      added.2 = true → added.1 = true ∧ arg.name ∉ names := by
  unfold addArgument
  split
  · exact .of_next fun _ => .pure nofun
  · rename_i hnew
    split
    · exact .of_next fun _ => .pure nofun
    · exact .pure fun _ => ⟨rfl, fun hmem => hnew (List.contains_iff_mem.mpr hmem)⟩

/-- The arguments that are read after some names are taken have names of their own. -/
theorem gives_declaredArguments_names (names vars : List String)
    (elements : List (Tree × Element × Tag)) :
    Binder.Gives (declaredArguments (α := α) names vars elements) fun arguments =>
      (arguments.map (·.name)).Nodup ∧ ∀ arg ∈ arguments, arg.name ∉ names := by
  induction elements generalizing names vars with
  | nil => exact .pure ⟨.nil, List.forall_mem_nil _⟩
  | cons first rest ih =>
      obtain ⟨tree, e, tag⟩ := first
      unfold declaredArguments
      refine .of_next fun found => ?_
      cases found with
      | none => exact ih names vars
      | some arg =>
          refine (gives_addArgument_name names vars arg).bind fun added hadded => ?_
          obtain ⟨newName, newVar⟩ := added
          refine (ih _ _).bind fun more hmore => .pure ?_
          obtain ⟨hdistinct, hfresh⟩ := hmore
          cases newVar with
          | false =>
              refine ⟨hdistinct, fun other hother hmem => hfresh other hother ?_⟩
              split
              · exact List.mem_cons_of_mem _ hmem
              · exact hmem
          | true =>
              obtain ⟨rfl, hnew⟩ := hadded rfl
              refine ⟨List.nodup_cons.mpr ⟨fun hmem => ?_, hdistinct⟩, ?_⟩
              · obtain ⟨other, hother, hname⟩ := List.mem_map.mp hmem
                exact hfresh other hother (hname ▸ List.mem_cons_self)
              · refine List.forall_mem_cons.mpr ⟨hnew, fun other hother hmem => ?_⟩
                exact hfresh other hother (List.mem_cons_of_mem _ hmem)

/-- No two arguments of a pattern have one name. -/
theorem Document.names_distinct_bind (doc : Document) (o : BindOptions) {p : Pattern α}
    (hp : p ∈ (doc.bind o : BoundDocument α).patterns) : (p.arguments.map (·.name)).Nodup := by
  have hdeclares : Declares (α := α) (fun _ arguments => (arguments.map (·.name)).Nodup)
      (fun _ _ => True) :=
    ⟨fun elements r => (gives_declaredArguments_names [] [] elements r).1, fun _ _ _ => trivial,
      fun _ => .nil, fun _ => trivial⟩
  obtain ⟨-, hnames, -⟩ := hdeclares.bind doc o hp
  exact hnames

/-! ### Attributes that belong to no argument -/

theorem name_eq_of_strangerReport_eq {pattern : String} {a b : InstanceAttribute}
    (h : strangerReport pattern a = strangerReport pattern b) : a.name = b.name := by
  have hmessage := congrArg Diagnostic.message h
  simpa [strangerReport, Diagnostic.warning, String.append_assoc] using hmessage

theorem gapReport_ne_strangerReport (name pattern : String) (expected : Nat)
    (a b : InstanceAttribute) :
    PlainArgument.gapReport name expected a ≠ strangerReport pattern b := by
  intro h
  have hgap : ∀ s : String, (s ++ "'; the gap is ignored").toList.getLast? = some 'd' := by
    intro s
    rw [String.toList_append, List.getLast?_append]
    rfl
  have hstranger : ∀ s : String, (s ++ "'").toList.getLast? = some '\'' := by
    intro s
    rw [String.toList_append, List.getLast?_append]
    rfl
  have hlast := congrArg (·.message.toList.getLast?) h
  exact absurd ((hgap _).symm.trans (hlast.trans (hstranger _))) (by decide)

namespace Pattern

variable {p : Pattern α}

/-- An attribute is reported as belonging to no argument exactly if none seeks its name. -/
theorem strangerReport_mem_reports (hdistinct : (i.attributes.map (·.name)).Nodup)
    {a : InstanceAttribute} (ha : a ∈ i.attributes) :
    strangerReport p.qualifiedName a ∈ p.reports i ↔
      ∀ arg ∈ p.arguments, arg.seeks a.name = false := by
  obtain ⟨index, hindex⟩ := List.getElem?_of_mem ha
  have htaken := mem_takes hdistinct (p := p) hindex
  constructor
  · intro h
    rcases List.mem_append.mp h with h | h
    · rcases isErrorOrGap_of_mem_reports h with herror | ⟨b, -, name, expected, hgap⟩
      · exact nomatch herror
      · exact absurd hgap.symm (gapReport_ne_strangerReport name p.qualifiedName expected b a)
    rcases List.mem_append.mp h with h | h
    · obtain ⟨index', b, hindex', hnot, heq⟩ := mem_strangerReports.mp h
      have hb := List.mem_of_getElem? hindex'
      obtain rfl : a = b :=
        List.inj_on_of_nodup_map hdistinct ha hb (name_eq_of_strangerReport_eq heq)
      rw [mem_takes hdistinct (p := p) hindex'] at hnot
      simpa using hnot
    · exact nomatch isError_of_mem_testReports h
  · intro h
    have hnot : index ∉ p.takes i := by
      rw [htaken]
      simpa using h
    exact List.mem_append_right _ (List.mem_append_left _
      (mem_strangerReports.mpr ⟨index, a, hindex, hnot, rfl⟩))

/-- What is reported at the name of an attribute that no argument seeks: that it belongs to none,
unless something else was reported there before. -/
theorem filter_items_stranger (hdistinct : (i.attributes.map (·.name)).Nodup)
    {a : InstanceAttribute} (ha : a ∈ i.attributes)
    (hnone : ∀ arg ∈ p.arguments, arg.seeks a.name = false) :
    ∃ d, (p.bindArguments i).2.items.filter (·.span == a.nameSpan) = [d] ∧
      (d = strangerReport p.qualifiedName a ∨ d ∈ p.arguments.flatMap (·.reports i) ∨
        ∃ b ∈ i.attributes, b ≠ a ∧ b.nameSpan = a.nameSpan ∧
          d = strangerReport p.qualifiedName b) := by
  have hmade := (strangerReport_mem_reports hdistinct ha).mpr hnone
  obtain ⟨d, hfirst⟩ := Diagnostics.exists_firstAt hmade
  refine ⟨d, ?_, ?_⟩
  · rw [bindArguments_eq, Diagnostics.filter_items_ofList]
    exact congrArg Option.toList hfirst
  obtain ⟨index, hindex⟩ := List.getElem?_of_mem ha
  have hnot : index ∉ p.takes i := by
    rw [mem_takes hdistinct hindex]
    simpa using hnone
  have hstranger : strangerReport p.qualifiedName a ∈
      strangerReports p.qualifiedName (p.takes i) i.attributes :=
    mem_strangerReports.mpr ⟨index, a, hindex, hnot, rfl⟩
  obtain ⟨d', hfirst'⟩ := Diagnostics.exists_firstAt hstranger
  -- The tests come after the attributes, so they are not the first to report there.
  unfold Diagnostics.firstAt at hfirst hfirst'
  rw [reports, List.find?_append, List.find?_append, hfirst', Option.some_or] at hfirst
  rcases Option.or_eq_some_iff.mp hfirst with hfirst | ⟨-, hsame⟩
  · exact .inr (.inl (List.mem_of_find?_eq_some hfirst))
  · obtain rfl := Option.some.inj hsame
    obtain ⟨_, b, hb, -, rfl⟩ := mem_strangerReports.mp (List.mem_of_find?_eq_some hfirst')
    have hfound := List.find?_some hfirst'
    have hspan : b.nameSpan = a.nameSpan := beq_iff_eq.mp hfound
    by_cases hba : b = a
    · exact .inl (congrArg (strangerReport p.qualifiedName) hba)
    · exact .inr (.inr ⟨b, List.mem_of_getElem? hb, hba, hspan, rfl⟩)

end Pattern

/-! ### One argument for each attribute -/

/-- Whether an argument has a value of its own that is given in one attribute. -/
def Argument.IsSingular : Argument α → Prop
  | .plain arg => arg.source = .singular
  | .group _ => False

omit [Number α] in
theorem Argument.name_of_seeks {arg : Argument α} (h : arg.IsSingular) {given : String}
    (hseeks : arg.seeks given = true) : given = arg.name := by
  cases arg with
  | plain arg =>
      obtain ⟨r, hr, hseeks⟩ := List.any_eq_true.mp hseeks
      obtain rfl := List.mem_singleton.mp hr
      rw [AttributeReader.seeks, show arg.source = .singular from h] at hseeks
      exact beq_iff_eq.mp hseeks
  | group g => exact h.elim

omit [Number α] in
/-- The name of what seeks an attribute is the start of the attribute's name. -/
theorem AttributeReader.name_isPrefix_of_seeks {r : AttributeReader α} {given : String}
    (h : r.seeks given = true) : r.name.toList <+: given.toList := by
  unfold seeks at h
  split at h
  · rw [beq_iff_eq.mp h]
  · unfold numberAfter? at h
    split at h
    · next hstarts => exact List.isPrefixOf_iff_prefix.mp hstarts
    · cases h
  · cases h

namespace Pattern

/-- Every attribute of an instance is for the arguments that seek its name. It is reported if there
are none, and makes a difference to no other. If there are two readers of it, the name of one starts
with that of the other, and they are not both arguments that are given in one attribute. -/
theorem bindArguments_serves (doc : Document) (o : BindOptions) {p : Pattern α}
    (hp : p ∈ (doc.bind o : BoundDocument α).patterns) (i : Instance α)
    (hdistinct : (i.attributes.map (·.name)).Nodup) :
    let bound := p.bindArguments i
    ∀ index a, i.attributes[index]? = some a →
      (strangerReport p.qualifiedName a ∈ bound.2.items →
        ∀ arg ∈ p.arguments, arg.seeks a.name = false) ∧
      ((∀ arg ∈ p.arguments, arg.seeks a.name = false) →
        ∃ d, bound.2.items.filter (·.span == a.nameSpan) = [d] ∧
          (d = strangerReport p.qualifiedName a ∨ d ∈ p.arguments.flatMap (·.reports i) ∨
            ∃ b ∈ i.attributes, b ≠ a ∧ b.nameSpan = a.nameSpan ∧
              d = strangerReport p.qualifiedName b)) ∧
      (∀ arg ∈ p.arguments, arg.seeks a.name = false → ∀ value,
        (p.bindArguments (i.setValue index value)).1.get? arg.var = bound.1.get? arg.var) ∧
      (∀ r ∈ p.arguments.flatMap (·.readers), ∀ r' ∈ p.arguments.flatMap (·.readers),
        r.seeks a.name = true → r'.seeks a.name = true →
        r.name.toList <+: r'.name.toList ∨ r'.name.toList <+: r.name.toList) ∧
      ∀ arg ∈ p.arguments, ∀ arg' ∈ p.arguments, arg.seeks a.name = true →
        arg'.seeks a.name = true → arg.IsSingular → arg'.IsSingular → arg = arg' := by
  intro bound index a ha
  have hmem := List.mem_of_getElem? ha
  refine ⟨fun h => ?_, filter_items_stranger hdistinct hmem, fun arg harg hseeks value => ?_, ?_, ?_⟩
  · have hitems : strangerReport p.qualifiedName a ∈ (p.bindArguments i).2.items := h
    rw [bindArguments_eq] at hitems
    exact (strangerReport_mem_reports hdistinct hmem).mp
      (List.mem_of_find?_eq_some (Diagnostics.mem_items_ofList.mp hitems))
  · have hvars := (doc.areDeclared_bind o hp).distinct
    have hgets := (get?_bindArguments hvars harg (i.setValue index value)).trans
      (by rw [Argument.valueFrom?_setValue ha hseeks])
    exact hgets.trans (get?_bindArguments hvars harg i).symm
  · intro r _ r' _ hseeks hseeks'
    exact List.prefix_or_prefix_of_prefix (AttributeReader.name_isPrefix_of_seeks hseeks)
      (AttributeReader.name_isPrefix_of_seeks hseeks')
  · intro arg harg arg' harg' hseeks hseeks' hsingular hsingular'
    have hname : arg.name = arg'.name :=
      (Argument.name_of_seeks hsingular hseeks).symm.trans (Argument.name_of_seeks hsingular' hseeks')
    exact List.inj_on_of_nodup_map (doc.names_distinct_bind o hp) harg harg' hname

/-- Who seeks each attribute of an instance, by variables, and what is reported of the instance. -/
def serves (p : Pattern α) (i : Instance α) : List (String × List String) × List String :=
  (i.attributes.map fun a => (a.name, ((p.arguments.flatMap (·.readers)).filter
    (·.seeks a.name)).map (·.arg.var)), (p.bindArguments i).2.items.map (·.message))

/-- A pattern with one argument. -/
def singleSource : String :=
  "<pattern name='p' type='widget'><arg name='x' type='int'/></pattern>"

theorem serves_stranger :
    let i := (({} : Instance α).withAttribute "x" "5").withAttribute "z" "6"
    ((Document.ofSource singleSource false).bind {} : BoundDocument α).patterns.map (·.serves i) =
      [([("x", ["x"]), ("z", [])], ["'z' is not an argument of pattern 'default.p'"])] := by
  cbv

/-- An attribute that an argument seeks, and one that none does. -/
theorem bindArguments_serves_stranger :
    let i := (({} : Instance Float).withAttribute "x" "5").withAttribute "z" "6"
    ∃ p ∈ ((Document.ofSource singleSource false).bind {} : BoundDocument Float).patterns,
      p.serves i = ([("x", ["x"]), ("z", [])], ["'z' is not an argument of pattern 'default.p'"]) ∧
      ∀ (index : Nat) (a : InstanceAttribute), i.attributes[index]? = some a →
        strangerReport p.qualifiedName a ∈ (p.bindArguments i).2.items →
        ∀ arg ∈ p.arguments, arg.seeks a.name = false := by
  intro i
  obtain ⟨p, hp, hserves⟩ := List.map_eq_singleton_iff.mp (serves_stranger (α := Float))
  have hmem := hp ▸ List.mem_singleton_self p
  refine ⟨p, hmem, hserves, fun index a ha => ?_⟩
  exact (bindArguments_serves _ {} hmem i (by decide) index a ha).1

/-- A group with two members of one name. -/
def twiceSource : String :=
  "<pattern name='p' type='widget'><args name='g'><arg name='m' var='u' type='int'/>" ++
    "<arg name='m' var='v' type='int'/></args></pattern>"

theorem serves_twice :
    let d : BoundDocument α := bindSource twiceSource {}
    let i := ({} : Instance α).withAttribute "g-m" "1"
    d.diagnostics.items = [] ∧ d.patterns.map (fun p =>
      (p.serves i, ((p.bindArguments i).1.constant? "g").map (·.text))) =
        [(([("g-m", ["u", "v"])], []), some "\x7bu: 1, v: 1\x7d")] := by
  cbv

/-- One attribute gives two members of a group, and nothing is reported. -/
theorem bindArguments_serves_twice :
    let d : BoundDocument Float := bindSource twiceSource {}
    let i := ({} : Instance Float).withAttribute "g-m" "1"
    d.diagnostics.items = [] ∧ d.patterns.map (fun p =>
      (p.serves i, ((p.bindArguments i).1.constant? "g").map (·.text))) =
        [(([("g-m", ["u", "v"])], []), some "\x7bu: 1, v: 1\x7d")] :=
  serves_twice

end Pattern

end PatternMarkup
