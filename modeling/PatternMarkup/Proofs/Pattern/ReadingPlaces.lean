import PatternMarkup.Pattern.Bind.Declaration
import PatternMarkup.Pattern.Bind.Figure
import PatternMarkup.Proofs.Formula.LiteralRanges
import PatternMarkup.Proofs.Markup.FirstReports
import PatternMarkup.Proofs.Markup.TreePlaces
/-!
The places of what reading attributes and elements reports. It is at a node, a name or a value, at
a part of a value, or at several texts together. A literal and the check of its formula report
ranges of the value, so each stands for source text; only a wrong path is reported at a byte.
-/

namespace PatternMarkup

open Fragment

variable {source : String} {α : Type} [Number α]

/-! ### Ranges of values -/

/-- The text of a value. -/
def Attribute.text (a : Attribute) : Fragment := .ofString a.value 0

/-- Reading a literal in a value reports ranges of the value. -/
theorem Attribute.answersIn_readTyped (a : Attribute) {part : Fragment}
    (hpart : a.text.Contains part) (context : LiteralContext α) (type : ValueType) :
    AnswersIn a.text.Holds (Expression.RangesIn a.text.Holds) (readTyped context type part) :=
  PatternMarkup.answersIn_readTyped context type part (hasPlace_offset a.text).holds
    fun _ => hpart.holds

theorem eq_append_of_afterStart? {start text after : List Char}
    (h : afterStart? start text = some after) : text = start ++ after := by
  unfold afterStart? at h
  split at h
  · next hprefix =>
      obtain rfl := Option.some.inj h
      obtain ⟨rest, rfl⟩ := List.isPrefixOf_iff_prefix.mp hprefix
      rw [List.drop_left]
  · cases h

theorem eq_append_of_splitAtText? {middle text before after : List Char}
    (h : splitAtText? middle text = some (before, after)) : text = before ++ (middle ++ after) := by
  induction text generalizing before with
  | nil =>
      obtain ⟨after', hafter, heq⟩ := Option.map_eq_some_iff.mp h
      obtain ⟨rfl, rfl⟩ := Prod.mk.inj heq
      rw [List.nil_append]
      exact eq_append_of_afterStart? hafter
  | cons c rest ih =>
      rw [splitAtText?] at h
      split at h
      · next hafter =>
          obtain ⟨rfl, rfl⟩ := Prod.mk.inj (Option.some.inj h)
          rw [List.nil_append]
          exact eq_append_of_afterStart? hafter
      · obtain ⟨⟨front, back⟩, hsplit, heq⟩ := Option.map_eq_some_iff.mp h
        obtain ⟨rfl, rfl⟩ := Prod.mk.inj heq
        rw [ih hsplit, List.cons_append]

/-- The list of a loop is a part of the value that the loop is read from. -/
theorem Attribute.contains_loopList {a : Attribute} {names list : List Char}
    (h : splitAtText? " in ".toList a.value.toList = some (names, list)) :
    a.text.Contains ⟨byteLength names + 4, list⟩ := by
  refine ⟨names ++ " in ".toList, [], ?_, ?_⟩
  · rw [List.append_nil, List.append_assoc]
    exact eq_append_of_splitAtText? h
  · rw [byteLength_append, Attribute.text, Fragment.ofString, Nat.zero_add]
    rfl

/-- A range between characters of a text holds some of its characters. -/
theorem Fragment.Holds.exists_slice {text : String} {range : ByteRange}
    (h : (ofString text 0).Holds range) : ∃ piece, sliceBytes? text.toList range = some piece := by
  obtain ⟨hle, ⟨front, back, htext, hstart⟩, ⟨front', back', htext', hstop⟩⟩ := h
  simp only [ofString, Nat.zero_add] at htext htext' hstart hstop
  obtain ⟨piece, rfl, rfl⟩ := exists_append_of_byteLength_le (htext.symm.trans htext')
    (by rw [← hstart, ← hstop]; exact hle)
  obtain ⟨start, stop⟩ := range
  simp only at hstart hstop
  rw [byteLength_append] at hstop
  subst hstart hstop
  exact ⟨piece, htext ▸ sliceBytes?_append front piece back'⟩

namespace Attribute.Faithful

variable {a : Attribute}

/-- A range between characters of a value stands for source text. -/
theorem subSpan_of_holds (h : a.Faithful source) {range : ByteRange}
    (hrange : a.text.Holds range) : (a.subSpan range).Faithful source := by
  obtain ⟨piece, hpiece⟩ := hrange.exists_slice
  cases hverbatim : a.verbatim with
  | true => exact ⟨piece, (h.subSpan hverbatim range piece hpiece).1⟩
  | false =>
      rw [Attribute.subSpan, hverbatim]
      exact h.raw.valueSpan

/-- The span of one byte of a value is at whole characters, or it cuts one. -/
theorem subSpan_byte (h : a.Faithful source) (offset : Nat) :
    (a.subSpan ⟨offset, offset + 1⟩).Faithful source ∨
      (a.subSpan ⟨offset, offset + 1⟩).CutsCharacter source := by
  cases hverbatim : a.verbatim with
  | true =>
      have hvalue := h.raw.valueSpan.marks (h.raw.verbatim.mp hverbatim)
      rw [Attribute.subSpan, if_pos hverbatim]
      exact hvalue.narrow_byte offset
  | false =>
      rw [Attribute.subSpan, hverbatim]
      exact .inl h.raw.valueSpan

end Attribute.Faithful

/-- The elements of a list, with the trees they are the roots of, stand in the source. -/
def EntriesIn (source : String) (entries : List (Tree × Element × Tag)) : Prop :=
  ∀ entry ∈ entries, entry.1.Faithful source ∧ entry.2.1.Faithful source

namespace Tree

theorem Faithful.element {tree : Tree} (h : tree.Faithful source) {e : Element} {tag : Tag}
    (he : tree.element? = some (e, tag)) : e.Faithful source := by
  obtain ⟨e', he', heq⟩ := Option.map_eq_some_iff.mp he
  obtain ⟨rfl, -⟩ := Prod.mk.inj heq
  exact h.content.of_element? he'

theorem AllFaithful.elements {trees : List Tree} (h : AllFaithful source trees) :
    EntriesIn source (elements trees) := by
  intro entry hentry
  obtain ⟨tree, htree, hfound⟩ := List.mem_filterMap.mp hentry
  obtain ⟨⟨e, tag⟩, helement, rfl⟩ := Option.map_eq_some_iff.mp hfound
  have htree := allFaithful_iff.mp h tree htree
  exact ⟨htree, htree.element helement⟩

end Tree

/-! ### Steps -/

/-- The report points at source text; that of a wrong path may point at the first of several bytes
of a character instead. -/
def Diagnostic.PointsAt (d : Diagnostic) (source : String) : Prop :=
  d.span.Faithful source ∨ d.message = "invalid path data" ∧ d.span.CutsCharacter source

/-- All that has been found stands in a source. -/
structure DocumentReading.LiesIn (r : DocumentReading) (source : String) : Prop where
  arena : r.arena.Faithful source
  reports : ∀ d ∈ r.diagnostics.items, d.PointsAt source
  areas : ∀ area ∈ r.areas, area.2.Faithful source

namespace Binder

variable {β γ : Type} {P : β → Prop} {Q : γ → Prop}

/-- What a step adds stands in the source, as what was found before does, and its result has a
property. -/
def FindsIn (source : String) (step : Binder β) (P : β → Prop) : Prop :=
  ∀ r, r.LiesIn source → P (step r).1 ∧ (step r).2.LiesIn source

/-- What a step adds stands in the source. -/
abbrev StaysIn (source : String) (step : Binder β) : Prop := FindsIn source step fun _ => True

theorem FindsIn.pure {x : β} (h : P x) : FindsIn source (Pure.pure x) P := fun _ hr => ⟨h, hr⟩

theorem FindsIn.done (x : β) : StaysIn source (Pure.pure x) := .pure trivial

theorem FindsIn.none : FindsIn source (Pure.pure none : Binder (Option β)) fun found =>
    ∀ x ∈ found, P x :=
  .pure fun x hx => absurd hx (Option.not_mem_none x)

theorem FindsIn.some {x : β} (h : P x) :
    FindsIn source (Pure.pure (some x) : Binder (Option β)) fun found => ∀ y ∈ found, P y :=
  .pure fun _ hy => Option.some.inj hy ▸ h

theorem FindsIn.bind {step : Binder β} {next : β → Binder γ} (h : FindsIn source step P)
    (hnext : ∀ x, P x → FindsIn source (next x) Q) : FindsIn source (step >>= next) Q := by
  intro r hr
  obtain ⟨hx, hr'⟩ := h r hr
  exact hnext _ hx _ hr'

/-- A step that may find nothing comes first. -/
theorem FindsIn.bindOption {step : Binder (Option β)} {next : Option β → Binder γ}
    (h : FindsIn source step fun found => ∀ x ∈ found, P x)
    (hnone : FindsIn source (next Option.none) Q)
    (hsome : ∀ x, P x → FindsIn source (next (Option.some x)) Q) :
    FindsIn source (step >>= next) Q :=
  h.bind fun found hfound =>
    match found with
    | Option.none => hnone
    | Option.some x => hsome x (hfound x rfl)

/-- A step whose result does not matter comes first. -/
theorem FindsIn.next {step : Binder β} {next : β → Binder γ}
    (h : FindsIn source step fun _ => True) (hnext : ∀ x, FindsIn source (next x) Q) :
    FindsIn source (step >>= next) Q :=
  h.bind fun x _ => hnext x

theorem FindsIn.stays {step : Binder β} (h : FindsIn source step P) : StaysIn source step :=
  fun r hr => ⟨trivial, (h r hr).2⟩

theorem findsIn_get : FindsIn source (get : Binder DocumentReading) fun r => r.LiesIn source :=
  fun _ hr => ⟨hr, hr⟩

theorem staysIn_mark (f : Usage → Usage) : StaysIn source (mark f) :=
  fun _ hr => ⟨trivial, hr.arena, hr.reports, hr.areas⟩

theorem staysIn_modifyAreas {f : List (String × Span) → List (String × Span)}
    (hf : ∀ areas : List (String × Span), (∀ area ∈ areas, area.2.Faithful source) →
      ∀ area ∈ f areas, area.2.Faithful source) :
    StaysIn source (modify fun r => { r with areas := f r.areas }) :=
  fun _ hr => ⟨trivial, hr.arena, hr.reports, hf _ hr.areas⟩

theorem staysIn_forM {l : List β} {f : β → Binder Unit} (h : ∀ x ∈ l, StaysIn source (f x)) :
    StaysIn source (l.forM f) := by
  induction l with
  | nil => exact .done _
  | cons x l ih =>
      obtain ⟨hx, hl⟩ := List.forall_mem_cons.mp h
      exact hx.next fun _ => ih hl

theorem staysIn_mapM {l : List β} {f : β → Binder γ} (h : ∀ x ∈ l, StaysIn source (f x)) :
    StaysIn source (l.mapM f) := by
  induction l with
  | nil => exact .done _
  | cons x l ih =>
      obtain ⟨hx, hl⟩ := List.forall_mem_cons.mp h
      rw [List.mapM_cons]
      exact hx.next fun _ => (ih hl).next fun _ => .done _

theorem staysIn_forIn {l : List β} {start : γ} {f : β → γ → Binder (ForInStep γ)}
    (h : ∀ x y, StaysIn source (f x y)) : StaysIn source (forIn l start f) := by
  induction l generalizing start with
  | nil => exact .done _
  | cons x l ih =>
      rw [List.forIn_cons]
      refine (h x start).next fun step => ?_
      cases step with
      | done y => exact .done y
      | yield y => exact ih

theorem staysIn_report {d : Diagnostic} (hd : d.PointsAt source) : StaysIn source (report d) := by
  refine fun r hr => ⟨trivial, hr.arena, fun other hother => ?_, hr.areas⟩
  rcases Diagnostics.mem_items_push.mp hother with hother | ⟨-, rfl⟩
  · exact hr.reports other hother
  · exact hd

theorem staysIn_error {span : Span} (hspan : span.Faithful source) (message : String) :
    StaysIn source (error span message) := staysIn_report (.inl hspan)

theorem staysIn_errorBecause {span : Span} (hspan : span.Faithful source)
    (message cause : String) : StaysIn source (errorBecause span message cause) :=
  staysIn_report (.inl hspan)

theorem staysIn_warning {span : Span} (hspan : span.Faithful source) (message : String) :
    StaysIn source (warning span message) := staysIn_report (.inl hspan)

theorem staysIn_markNode (tree : Tree) : StaysIn source (markNode tree) := staysIn_mark _

theorem staysIn_markTree (tree : Tree) : StaysIn source (markTree tree) := staysIn_mark _

theorem staysIn_reject {tree : Tree} (htree : tree.Faithful source) (message : String) :
    StaysIn source (reject tree message) :=
  (staysIn_error htree.content.span message).next fun _ => staysIn_markTree tree

/-! ### Single attributes and elements -/

section

variable {e : Element} (he : e.Faithful source)

include he

theorem findsIn_attribute? (name : String) :
    FindsIn source (attribute? e name) fun found => ∀ a ∈ found, a.Faithful source := by
  unfold attribute?
  split
  · next a ha => exact (staysIn_mark _).next fun _ => .some (he.attribute? ha)
  · exact .none

theorem findsIn_requiredAttribute? (name : String) :
    FindsIn source (requiredAttribute? e name) fun found => ∀ a ∈ found, a.Faithful source := by
  unfold requiredAttribute?
  refine (findsIn_attribute? he name).bind fun a ha => ?_
  cases a with
  | some a => exact .some (ha a rfl)
  | none => exact (staysIn_error he.nameSpan _).next fun _ => .none

theorem staysIn_attributeText? (name : String) : StaysIn source (attributeText? e name) :=
  (findsIn_attribute? he name).bind fun _ _ => .done _

theorem staysIn_flag (name : String) : StaysIn source (flag e name) := by
  unfold flag
  refine (findsIn_attribute? he name).bindOption (.done _) fun a ha => ?_
  have hvalue := ha.raw.valueSpan
  simp only
  split
  all_goals first | exact .done _ | exact (staysIn_error hvalue _).next fun _ => .done _

end

theorem staysIn_reference? (index : DocumentIndex) {a : Attribute} (ha : a.Faithful source) :
    StaysIn source (reference? index a) := by
  have hvalue := ha.raw.valueSpan
  unfold reference?
  split
  · exact (staysIn_error hvalue _).next fun _ => .done _
  · split
    · exact .done _
    · exact (staysIn_error hvalue _).next fun _ => .done _

theorem staysIn_acceptsVariable (name : String) {span : Span} (hspan : span.Faithful source) :
    StaysIn source (acceptsVariable name span) := by
  unfold acceptsVariable
  split
  · exact (staysIn_error hspan _).next fun _ => .done _
  · split
    · exact (staysIn_error hspan _).next fun _ => .done _
    · exact .done _

end Binder

open Binder

/-! ### Typed attributes -/

namespace Attribute

variable {a : Attribute} (ha : a.Faithful source)

include ha

/-- Faults of a formula are reported at their ranges of the value that it was read from. -/
theorem staysIn_faults {faults : List TypeError} (h : TypeError.AllIn a.text.Holds faults) :
    StaysIn source (faults.forM fun f => error (a.subSpan f.range) f.fault.message) :=
  staysIn_forM fun f hf => staysIn_error (ha.subSpan_of_holds (h f hf)) _

theorem staysIn_expression? (type : ValueType) (s : Scope α) (axis : Option Axis) :
    StaysIn source (a.expression? type s axis) := by
  have hranges := a.answersIn_readTyped (.refl a.text) { scope := s, axis } type
  unfold expression?
  split
  · next e he =>
      rw [Attribute.text, he] at hranges
      exact (staysIn_errorBecause (ha.subSpan_of_holds hranges) _ _).next fun _ => .done _
  · next e he =>
      rw [Attribute.text, he] at hranges
      refine (staysIn_faults ha ?_).next fun _ => .done _
      cases e with
      | constant v => exact .nil
      | formula f => exact Ast.allIn_checkAs s type f.ast (hranges f rfl)

theorem staysIn_typed? {τ : Type} [Typed α τ] (s : Scope α) (axis : Option Axis) :
    StaysIn source (a.typed? s axis : Binder (Option (Expression α τ))) := by
  unfold Attribute.typed?
  refine (staysIn_expression? ha _ s axis).next fun e => ?_
  cases e with
  | none => exact .done _
  | some e =>
      simp only
      split
      · exact .done _
      · exact (staysIn_error ha.raw.valueSpan _).next fun _ => .done _

end Attribute

namespace Binder

variable {τ : Type} [Typed α τ] {e : Element} (he : e.Faithful source)

include he

theorem staysIn_typed? (name : String) (s : Scope α) (axis : Option Axis) :
    StaysIn source (typed? e name s axis : Binder (Option (Expression α τ))) := by
  unfold typed?
  refine (findsIn_attribute? he name).bindOption (.done _) fun a ha => ?_
  exact Attribute.staysIn_typed? ha s axis

theorem staysIn_typedOr (name : String) (s : Scope α) (axis : Option Axis)
    (default : Expression α τ) : StaysIn source (typedOr e name s axis default) :=
  (staysIn_typed? he name s axis).next fun _ => .done _

theorem staysIn_required (name : String) (s : Scope α) (axis : Option Axis)
    (otherwise : Expression α τ) : StaysIn source (required e name s axis otherwise) := by
  unfold required
  refine (findsIn_requiredAttribute? he name).bindOption (.done _) fun a ha => ?_
  exact (Attribute.staysIn_typed? ha s axis).next fun _ => .done _

theorem staysIn_constant? (name : String) :
    StaysIn source (constant? (α := α) e name : Binder (Option τ)) := by
  unfold constant?
  refine (findsIn_attribute? he name).bindOption (.done _) fun a ha => ?_
  refine (Attribute.staysIn_typed? ha _ none).next fun found => ?_
  rcases found with _ | ⟨v⟩ | f
  · exact .done _
  · exact .done _
  · exact (staysIn_error ha.raw.valueSpan _).next fun _ => .done _

theorem staysIn_type? (what : String) : StaysIn source (type? e what) := by
  unfold type?
  refine (staysIn_attributeText? he _).next fun members =>
    (findsIn_attribute? he _).bindOption (.done _) fun a ha => ?_
  simp only
  split
  · exact .done _
  · exact (staysIn_error ha.raw.valueSpan _).next fun _ => .done _

end Binder

/-! ### Arguments -/

section

variable {e : Element} (he : e.Faithful source)

include he

theorem staysIn_argumentVar? (name : String) (isMember : Bool) :
    StaysIn source (argumentVar? e name isMember) := by
  have hcheck : ∀ var : String × Span, var.2.Faithful source → StaysIn source (do
      if !isIdentifier var.1 then
        error var.2 ("'" ++ var.1 ++ "' is not a valid variable name")
        return none
      else if !isMember && Canvas.isReserved var.1 then
        error var.2 ("'" ++ var.1 ++ "' is reserved by the canvas")
        return none
      else return some var.1) := by
    intro var hspan
    split
    · exact (staysIn_error hspan _).next fun _ => .done _
    · split
      · exact (staysIn_error hspan _).next fun _ => .done _
      · exact .done _
  have hnamed : ∀ {var : String} {span : Span}, span.Faithful source →
      FindsIn source (Pure.pure (var, span)) fun found => found.2.Faithful source :=
    fun hspan => .pure hspan
  unfold argumentVar?
  refine (findsIn_attribute? he _).bindOption ((hnamed he.nameSpan).bind hcheck) fun a ha => ?_
  exact (hnamed ha.raw.valueSpan).bind hcheck

theorem staysIn_argumentSource (isMember : Bool) : StaysIn source (argumentSource e isMember) := by
  unfold argumentSource
  refine (staysIn_flag he _).next fun numbered => (staysIn_flag he _).next fun entry => ?_
  split
  · exact (staysIn_error he.nameSpan _).next fun _ => .done _
  · split
    · exact (staysIn_error he.nameSpan _).next fun _ => .done _
    · split
      · exact .done _
      · split <;> exact .done _

theorem staysIn_argumentTest (var : String) (type : ValueType) :
    StaysIn source (argumentTest (α := α) e var type) :=
  (staysIn_typed? he _ _ none).next fun _ => (staysIn_attributeText? he _).next fun _ => .done _

theorem findsIn_writtenValue? (name : String) (type : ValueType) :
    FindsIn source (writtenValue? (α := α) e name type) fun found =>
      ∀ w ∈ found, w.span.Faithful source := by
  unfold writtenValue?
  refine (findsIn_attribute? he name).bindOption .none fun a ha => ?_
  refine (Attribute.staysIn_expression? ha _ _ _).next fun value => .pure fun w hw => ?_
  obtain ⟨value, -, rfl⟩ := Option.map_eq_some_iff.mp hw
  exact ha.raw.valueSpan

theorem staysIn_argumentType (name : String) : StaysIn source (argumentType e name) := by
  unfold argumentType
  refine (staysIn_type? he _).next fun type => ?_
  cases type with
  | some type => exact .done _
  | none => exact (staysIn_error he.nameSpan _).next fun _ => .done _

end

theorem staysIn_keepPassing (arg : PlainArgument α) (what : String) {w : Option (WrittenValue α)}
    (hw : ∀ v ∈ w, v.span.Faithful source) : StaysIn source (keepPassing arg what w) := by
  unfold keepPassing
  cases w with
  | none => exact .done _
  | some w =>
      simp only
      split
      · exact (staysIn_report (.inl (hw w rfl))).next fun _ => .done _
      · exact .done _

theorem findsIn_plainArgument? (tree : Tree) {e : Element} (he : e.Faithful source)
    (isMember : Bool) : FindsIn source (plainArgument? (α := α) tree e isMember) fun found =>
      ∀ arg ∈ found, arg.span.Faithful source := by
  unfold plainArgument?
  refine (staysIn_markNode tree).next fun _ =>
    (findsIn_requiredAttribute? he _).bindOption .none fun a _ => ?_
  refine (staysIn_argumentVar? he _ isMember).next fun var => ?_
  cases var with
  | none => exact .none
  | some var =>
      refine (staysIn_argumentType he _).next fun type => (staysIn_flag he _).next fun _ =>
        (staysIn_argumentSource he isMember).next fun origin =>
          (staysIn_argumentTest he _ _).next fun test => ?_
      refine (findsIn_writtenValue? he _ _).bind fun fallback hfallback =>
        (findsIn_writtenValue? he _ _).bind fun sample hsample => ?_
      simp only
      split
      · exact (FindsIn.done _).next fun _ => (staysIn_keepPassing _ _ hsample).next fun _ =>
          .some he.nameSpan
      · exact (staysIn_keepPassing _ _ hfallback).next fun _ =>
          (staysIn_keepPassing _ _ hsample).next fun _ => .some he.nameSpan

theorem staysIn_groupMembers (group : String) (members : List (PlainArgument α))
    {entries : List (Tree × Element × Tag)} (hentries : EntriesIn source entries) :
    StaysIn source (groupMembers group members entries) := by
  induction entries generalizing members with
  | nil => exact .done _
  | cons entry rest ih =>
      obtain ⟨tree, e, tag⟩ := entry
      obtain ⟨⟨htree, he⟩, hrest⟩ := List.forall_mem_cons.mp hentries
      have ih := fun members => ih members hrest
      unfold groupMembers
      split
      · refine (findsIn_plainArgument? tree he true).bindOption (ih members) fun m hm => ?_
        simp only
        split
        · exact (staysIn_error hm _).next fun _ => ih members
        · exact ih _
      · exact (staysIn_markTree tree).next fun _ => ih members
      · exact (staysIn_markTree tree).next fun _ => ih members
      · exact (staysIn_reject htree _).next fun _ => ih members

theorem findsIn_argumentGroup? {tree : Tree} (htree : tree.Faithful source) {e : Element}
    (he : e.Faithful source) : FindsIn source (argumentGroup? (α := α) tree e) fun found =>
      ∀ arg ∈ found, arg.span.Faithful source := by
  unfold argumentGroup?
  refine (staysIn_markNode tree).next fun _ =>
    (findsIn_requiredAttribute? he _).bindOption .none fun a _ => ?_
  refine (staysIn_argumentVar? he _ false).next fun var => ?_
  cases var with
  | none => exact .none
  | some var =>
      refine (staysIn_flag he _).next fun _ =>
        (staysIn_groupMembers _ _ htree.children.elements).next fun members => ?_
      simp only
      split
      · exact (staysIn_warning he.nameSpan _).next fun _ =>
          (staysIn_argumentTest he _ _).next fun _ => .some he.nameSpan
      · exact (staysIn_argumentTest he _ _).next fun _ => .some he.nameSpan

theorem findsIn_argument? {tree : Tree} (htree : tree.Faithful source) {e : Element}
    (he : e.Faithful source) (tag : Tag) :
    FindsIn source (argument? (α := α) tree e tag) fun found =>
      ∀ arg ∈ found, arg.span.Faithful source := by
  unfold argument?
  split
  · refine (findsIn_plainArgument? tree he false).bind fun found hfound => .pure fun arg harg => ?_
    obtain ⟨plain, hplain, rfl⟩ := Option.map_eq_some_iff.mp harg
    exact hfound plain hplain
  · refine (findsIn_argumentGroup? htree he).bind fun found hfound => .pure fun arg harg => ?_
    obtain ⟨group, hgroup, rfl⟩ := Option.map_eq_some_iff.mp harg
    exact hfound group hgroup
  · exact .none

omit [Number α] in
theorem staysIn_addArgument (names vars : List String) {arg : Argument α}
    (harg : arg.span.Faithful source) : StaysIn source (addArgument names vars arg) := by
  unfold addArgument
  split
  · exact (staysIn_error harg _).next fun _ => .done _
  · split
    · exact (staysIn_error harg _).next fun _ => .done _
    · exact .done _

theorem staysIn_declaredArguments (names vars : List String)
    {entries : List (Tree × Element × Tag)} (hentries : EntriesIn source entries) :
    StaysIn source (declaredArguments (α := α) names vars entries) := by
  induction entries generalizing names vars with
  | nil => exact .done _
  | cons entry rest ih =>
      obtain ⟨tree, e, tag⟩ := entry
      obtain ⟨⟨htree, he⟩, hrest⟩ := List.forall_mem_cons.mp hentries
      unfold declaredArguments
      refine (findsIn_argument? htree he tag).bindOption (ih names vars hrest) fun arg harg => ?_
      exact (staysIn_addArgument _ _ harg).next fun _ => (ih _ _ hrest).next fun _ => .done _

theorem staysIn_validation? (s : Scope α) (tree : Tree) {e : Element} (he : e.Faithful source) :
    StaysIn source (validation? s tree e) := by
  unfold validation?
  refine (staysIn_markNode tree).next fun _ => (staysIn_attributeText? he _).next fun _ =>
    (findsIn_requiredAttribute? he _).bindOption (.done _) fun a ha => ?_
  exact (Attribute.staysIn_typed? ha s none).next fun _ => .done _

theorem staysIn_declaredValidations (s : Scope α) {entries : List (Tree × Element × Tag)}
    (hentries : EntriesIn source entries) : StaysIn source (declaredValidations s entries) := by
  induction entries with
  | nil => exact .done _
  | cons entry rest ih =>
      obtain ⟨tree, e, tag⟩ := entry
      obtain ⟨⟨htree, he⟩, hrest⟩ := List.forall_mem_cons.mp hentries
      unfold declaredValidations
      simp only
      split
      · exact (staysIn_validation? s tree he).next fun _ => (ih hrest).next fun _ => .done _
      · exact (FindsIn.done _).next fun _ => (ih hrest).next fun _ => .done _

/-! ### Loops and variables -/

theorem staysIn_loopNames? {a : Attribute} (ha : a.Faithful source) (text : List Char) :
    StaysIn source (loopNames? a text) := by
  have hvalue := ha.raw.valueSpan
  have haccept : ∀ names : List String, ∀ found : Option (String × Option String),
      StaysIn source (do
        for name in names do
          unless ← acceptsVariable name a.valueSpan do return none
        return found) := by
    intro names found
    refine FindsIn.next (staysIn_forIn fun name _ => ?_) fun left => ?_
    · refine (staysIn_acceptsVariable name hvalue).next fun accepted => ?_
      cases accepted <;> exact .done _
    · rcases left with ⟨_ | found, _⟩ <;> exact .done _
  unfold loopNames?
  simp only
  split
  · exact haccept _ _
  · exact haccept _ _
  · exact (staysIn_error hvalue _).next fun _ => .done _

theorem staysIn_loopItems? {a : Attribute} (ha : a.Faithful source) (s : Scope α)
    {text : Fragment} (htext : a.text.Contains text) : StaysIn source (loopItems? a s text) := by
  have hranges := a.answersIn_readTyped htext { scope := s } .any
  unfold loopItems?
  split
  · next e he =>
      rw [he] at hranges
      exact (staysIn_error (ha.subSpan_of_holds hranges) _).next fun _ => .done _
  · next items hitems =>
      rw [hitems] at hranges
      split
      · exact (staysIn_error (ha.subSpan_of_holds htext.holds_range) _).next fun _ => .done _
      · have hitems := Expression.RangesIn.toAst hranges a.text.hasPlace_offset.holds
        refine (Attribute.staysIn_faults ha (Ast.allIn_check s _ hitems)).next fun _ => ?_
        split
        · exact .done _
        · exact .done _
        · exact (staysIn_error ha.raw.valueSpan _).next fun _ => .done _

theorem staysIn_loop? {a : Attribute} (ha : a.Faithful source) (s : Scope α) :
    StaysIn source (loop? a s) := by
  unfold loop?
  split
  · exact (staysIn_error ha.raw.valueSpan _).next fun _ => .done _
  · next hsplit =>
      refine (staysIn_loopNames? ha _).next fun names => ?_
      cases names with
      | none => exact .done _
      | some names =>
          refine (staysIn_loopItems? ha s (Attribute.contains_loopList hsplit)).next
            fun items => ?_
          cases items <;> exact .done _

theorem staysIn_figureLoop {e : Element} (he : e.Faithful source) (s : Scope α) :
    StaysIn source (figureLoop e s) := by
  unfold figureLoop
  refine (findsIn_attribute? he _).bindOption (.done _) fun a ha => ?_
  refine (staysIn_loop? ha s).next fun loop => ?_
  cases loop <;> exact .done _

theorem findsIn_declaredVariable? (before : List DeclaredVariable) (tree : Tree) {e : Element}
    (he : e.Faithful source) : FindsIn source (declaredVariable? before tree e) fun found =>
      ∀ d ∈ found, d.value.Faithful source := by
  unfold declaredVariable?
  refine (staysIn_markNode tree).next fun _ =>
    (findsIn_requiredAttribute? he _).bindOption .none fun a ha => ?_
  have hname := ha.raw.valueSpan
  refine (staysIn_acceptsVariable _ hname).next fun accepted => ?_
  split
  · exact .none
  · split
    · exact (staysIn_error hname _).next fun _ => .none
    · refine (staysIn_type? he _).next fun type =>
        (findsIn_requiredAttribute? he _).bind fun value hvalue => .pure fun d hd => ?_
      obtain ⟨value, hsome, rfl⟩ := Option.map_eq_some_iff.mp hd
      exact hvalue value hsome

theorem findsIn_declaredVariables {before : List DeclaredVariable}
    (hbefore : ∀ d ∈ before, d.value.Faithful source) {entries : List (Tree × Element × Tag)}
    (hentries : EntriesIn source entries) :
    FindsIn source (declaredVariables before entries) fun declared =>
      ∀ d ∈ declared, d.value.Faithful source := by
  induction entries generalizing before with
  | nil => exact .pure hbefore
  | cons entry rest ih =>
      obtain ⟨tree, e, tag⟩ := entry
      obtain ⟨⟨-, he⟩, hrest⟩ := List.forall_mem_cons.mp hentries
      have hmore : ∀ found : Option DeclaredVariable, (∀ d ∈ found, d.value.Faithful source) →
          FindsIn source (declaredVariables (before ++ found.toList) rest) fun declared =>
            ∀ d ∈ declared, d.value.Faithful source := fun found hfound =>
        ih (List.forall_mem_append.mpr ⟨hbefore, fun d hd =>
          hfound d (Option.mem_toList.mp hd)⟩) hrest
      unfold declaredVariables
      split
      · exact (findsIn_declaredVariable? before tree he).bind hmore
      · exact FindsIn.none.bind hmore

theorem staysIn_reportCycle {declared : List DeclaredVariable}
    (hdeclared : ∀ d ∈ declared, d.value.Faithful source) (cycle : List Nat) :
    StaysIn source (reportCycle declared cycle) := by
  unfold reportCycle
  simp only
  split
  · exact .done _
  · next first _ hmembers =>
      have hfirst : first ∈ cycle.filterMap fun i => declared[i]? :=
        hmembers ▸ List.mem_cons_self
      obtain ⟨i, -, hi⟩ := List.mem_filterMap.mp hfirst
      exact staysIn_error (hdeclared first (List.mem_of_getElem? hi)).raw.valueSpan _

theorem staysIn_figureVariables {children : List Tree}
    (hchildren : Tree.AllFaithful source children) (s : Scope α) :
    StaysIn source (figureVariables children s) :=
  (findsIn_declaredVariables (List.forall_mem_nil _) hchildren.elements).bind
    fun _ hdeclared =>
      (staysIn_mapM fun d hd => Attribute.staysIn_expression? (hdeclared d hd) _ _ _).next fun _ =>
        (staysIn_forM fun _ _ => staysIn_reportCycle hdeclared _).next fun _ => .done _

/-! ### Kinds of figures -/

section

variable {e : Element} (he : e.Faithful source)

include he

theorem staysIn_coordinate? (name : String) (s : Scope α) (axis : Axis) :
    StaysIn source (coordinate? e name s axis) := staysIn_typed? he name s _

theorem staysIn_coordinate (name : String) (s : Scope α) (axis : Axis) :
    StaysIn source (coordinate e name s axis) := staysIn_typedOr he name s _ _

theorem staysIn_requiredCoordinate (name : String) (s : Scope α) (axis : Axis) :
    StaysIn source (requiredCoordinate e name s axis) := staysIn_required he name s _ _

theorem staysIn_slicing? (s : Scope α) : StaysIn source (slicing? e s) := by
  unfold slicing?
  refine (staysIn_typed? he _ s none).next fun xs => (staysIn_typed? he _ s none).next fun ys =>
    (findsIn_attribute? he _).bind fun a ha => ?_
  cases a with
  | none =>
      simp only
      split
      · exact (staysIn_error he.nameSpan _).next fun _ => .done _
      · exact (FindsIn.done _).next fun _ => .done _
  | some a =>
      have ha := ha a rfl
      refine (Attribute.staysIn_typed? ha s none).next fun reference => ?_
      cases reference with
      | none => exact .done _
      | some reference =>
          simp only
          split
          · exact .done _
          · exact (staysIn_errorBecause ha.raw.valueSpan _ _).next fun _ => .done _

theorem staysIn_figureFrame (s : Scope α) : StaysIn source (figureFrame e s) :=
  (staysIn_coordinate? he _ s _).next fun _ => (staysIn_coordinate? he _ s _).next fun _ =>
    (staysIn_coordinate? he _ s _).next fun _ => (staysIn_coordinate? he _ s _).next fun _ =>
      (staysIn_typed? he _ s _).next fun _ => (staysIn_slicing? he s).next fun _ => .done _

theorem staysIn_corners (s : Scope α) (closed : Bool) : StaysIn source (corners e s closed) := by
  unfold corners
  refine (staysIn_required he _ s _ _).next fun points => ?_
  split
  · next ha =>
      split
      · exact (staysIn_error (he.attribute? ha).raw.valueSpan _).next fun _ => .done _
      · exact (FindsIn.done _).next fun _ => .done _
  · exact (FindsIn.done _).next fun _ => .done _

/-- A wrong path is reported at one byte of it, which may be one of several of a character. -/
theorem staysIn_pathData : StaysIn source (pathData (α := α) e) := by
  unfold pathData
  refine (findsIn_requiredAttribute? he _).bindOption (.done _) fun a ha => ?_
  simp only
  split
  · exact .done _
  · next fault _ =>
      refine FindsIn.next (staysIn_report ?_) fun _ => .done _
      exact (ha.subSpan_byte fault.offset).imp_right fun hcuts => ⟨rfl, hcuts⟩

theorem staysIn_figureShape (kind : ShapeKind) (s : Scope α) :
    StaysIn source (figureShape kind e s) := by
  cases kind with
  | rect =>
      exact (staysIn_coordinate he _ s _).next fun _ => (staysIn_coordinate he _ s _).next fun _ =>
        (staysIn_typedOr he _ s _ _).next fun _ => (staysIn_typedOr he _ s _ _).next fun _ =>
          (staysIn_coordinate? he _ s _).next fun _ => (staysIn_coordinate? he _ s _).next
            fun _ => .done _
  | ellipse =>
      exact (staysIn_coordinate he _ s _).next fun _ => (staysIn_coordinate he _ s _).next fun _ =>
        (staysIn_requiredCoordinate he _ s _).next fun _ =>
          (staysIn_requiredCoordinate he _ s _).next fun _ => .done _
  | circle =>
      exact (staysIn_coordinate he _ s _).next fun _ => (staysIn_coordinate he _ s _).next fun _ =>
        (staysIn_requiredCoordinate he _ s _).next fun _ => .done _
  | line =>
      exact (staysIn_coordinate he _ s _).next fun _ => (staysIn_coordinate he _ s _).next fun _ =>
        (staysIn_coordinate he _ s _).next fun _ => (staysIn_coordinate he _ s _).next
          fun _ => .done _
  | polyline => exact staysIn_corners he s false
  | polygon => exact staysIn_corners he s true
  | path => exact (staysIn_pathData he).next fun _ => .done _

theorem staysIn_textAnchor : StaysIn source (textAnchor e) := by
  unfold textAnchor
  refine (findsIn_attribute? he _).bindOption (.done _) fun a ha => ?_
  simp only
  split
  · exact .done _
  · exact (staysIn_error ha.raw.valueSpan _).next fun _ => .done _

end

/-- The span that the texts in an element cover together is one of the source. -/
theorem findsIn_childText (text : String) {span : Option Span}
    (hspan : ∀ s ∈ span, s.Faithful source) {trees : List Tree}
    (htrees : Tree.AllFaithful source trees) :
    FindsIn source (childText text span trees) fun found =>
      ∀ s ∈ found.2, s.Faithful source := by
  induction trees generalizing text span with
  | nil => exact .pure hspan
  | cons tree rest ih =>
      obtain ⟨htree, hrest⟩ := htrees
      have hhere := htree.content.span
      unfold childText
      simp only
      split
      · refine (staysIn_markNode tree).next fun _ => ih _ (fun s hs => ?_) hrest
        obtain rfl := Option.some.inj hs
        cases span with
        | none => exact hhere
        | some before => exact (hspan before rfl).join hhere
      · exact (staysIn_reject htree _).next fun _ => ih _ hspan hrest
      · exact ih _ hspan hrest

theorem staysIn_runContent {e : Element} (he : e.Faithful source) {children : List Tree}
    (hchildren : Tree.AllFaithful source children) (s : Scope α) :
    StaysIn source (runContent e children s) := by
  unfold runContent
  have hnone : ∀ span ∈ (none : Option Span), span.Faithful source :=
    fun span h => absurd h (Option.not_mem_none span)
  refine (findsIn_childText "" hnone hchildren).bind fun found hfound => ?_
  have hspan : (found.2.getD e.nameSpan).Faithful source := by
    cases hsome : found.2 with
    | none => exact he.nameSpan
    | some span => exact hfound span hsome
  simp only
  split
  · exact (staysIn_errorBecause hspan _ _).next fun _ => .done _
  · refine (staysIn_forM fun _ _ => staysIn_error hspan _).next fun _ => ?_
    split <;> exact .done _

section

variable {e : Element} (he : e.Faithful source)

include he

theorem staysIn_textRun {children : List Tree} (hchildren : Tree.AllFaithful source children)
    (s : Scope α) : StaysIn source (textRun e children s) :=
  (staysIn_textAnchor he).next fun _ => (staysIn_runContent he hchildren s).next fun _ =>
    (staysIn_coordinate he _ s _).next fun _ => (staysIn_coordinate he _ s _).next fun _ =>
      (staysIn_typedOr he _ s _ _).next fun _ => (staysIn_typed? he _ s _).next fun _ => .done _

theorem staysIn_picture (index : DocumentIndex) (s : Scope α) :
    StaysIn source (picture index e s) :=
  (staysIn_required he _ s _ _).next fun _ => (staysIn_coordinate he _ s _).next fun _ =>
    (staysIn_coordinate he _ s _).next fun _ => (staysIn_coordinate? he _ s _).next fun _ =>
      (staysIn_coordinate? he _ s _).next fun _ => .done _

theorem staysIn_slot (s : Scope α) : StaysIn source (slot e s) :=
  (findsIn_requiredAttribute? he _).bind fun _ _ => (staysIn_coordinate he _ s _).next fun _ =>
    (staysIn_coordinate he _ s _).next fun _ => (staysIn_coordinate? he _ s _).next fun _ =>
      (staysIn_coordinate? he _ s _).next fun _ => .done _

omit [Number α] in
theorem staysIn_areaKind (frame : FigureFrame α) : StaysIn source (areaKind e frame) := by
  unfold areaKind
  refine (findsIn_requiredAttribute? he _).bindOption (.done _) fun a ha => ?_
  refine FindsIn.next (staysIn_modifyAreas (f := fun areas => areas ++ [_])
    fun areas hareas => ?_) fun _ => .done _
  exact List.forall_mem_append.mpr ⟨hareas, List.forall_mem_singleton.mpr ha.raw.valueSpan⟩

theorem staysIn_figureKind (index : DocumentIndex) (tag : FigureTag) {children : List Tree}
    (hchildren : Tree.AllFaithful source children) (s : Scope α) :
    StaysIn source (figureKind index tag e children s) := by
  cases tag with
  | div => exact (staysIn_figureFrame he s).next fun _ => .done _
  | area =>
      exact (staysIn_figureFrame he s).next fun frame =>
        (staysIn_areaKind he frame).next fun _ => .done _
  | group => exact .done _
  | shape kind => exact (staysIn_figureShape he kind s).next fun _ => .done _
  | text => exact (staysIn_textRun he hchildren s).next fun _ => .done _
  | image => exact (staysIn_picture he index s).next fun _ => .done _
  | field => exact (staysIn_slot he s).next fun _ => .done _

end

/-! ### Styles -/

theorem staysIn_gradientStops (s : Scope α) {entries : List (Tree × Element × Tag)}
    (hentries : EntriesIn source entries) : StaysIn source (gradientStops s entries) := by
  induction entries with
  | nil => exact .done _
  | cons entry rest ih =>
      obtain ⟨tree, e, tag⟩ := entry
      obtain ⟨⟨htree, he⟩, hrest⟩ := List.forall_mem_cons.mp hentries
      unfold gradientStops
      split
      · exact (staysIn_markNode tree).next fun _ => (staysIn_required he _ s _ _).next fun _ =>
          (staysIn_required he _ s _ _).next fun _ => (ih hrest).next fun _ => .done _
      · exact (staysIn_reject htree _).next fun _ => ih hrest

theorem staysIn_gradient (s : Scope α) {tree : Tree} (htree : tree.Faithful source) :
    StaysIn source (gradient s tree) := by
  unfold gradient
  refine (staysIn_gradientStops s htree.children.elements).next fun stops => ?_
  simp only
  split
  · exact (staysIn_warning htree.content.span _).next fun _ => .done _
  · exact (FindsIn.done _).next fun _ => .done _

theorem staysIn_paintNumber (s : Scope α) {e : Element} (he : e.Faithful source) (name : String)
    (default : α) : StaysIn source (paintNumber s e name default) := staysIn_typedOr he _ s _ _

theorem staysIn_paintElement (s : Scope α) (kind : PaintKind) {tree : Tree}
    (htree : tree.Faithful source) {e : Element} (he : e.Faithful source) :
    StaysIn source (paintElement s kind tree e) := by
  refine (staysIn_markNode tree).next fun _ => ?_
  cases kind with
  | solid => exact (staysIn_required he _ s _ _).next fun _ => .done _
  | linear =>
      have hnumber := staysIn_paintNumber (α := α) s he
      exact (hnumber _ _).next fun _ => (hnumber _ _).next fun _ => (hnumber _ _).next fun _ =>
        (hnumber _ _).next fun _ => (staysIn_gradient s htree).next fun _ => .done _
  | radial =>
      have hnumber := staysIn_paintNumber (α := α) s he
      exact (hnumber _ _).next fun _ => (hnumber _ _).next fun _ => (hnumber _ _).next fun _ =>
        (staysIn_gradient s htree).next fun _ => .done _

theorem staysIn_paint? (index : DocumentIndex) {a : Attribute} (ha : a.Faithful source)
    (s : Scope α) : StaysIn source (paint? index a s) := by
  unfold paint?
  split
  · exact (Attribute.staysIn_typed? ha s none).next fun _ => .done _
  · refine (staysIn_reference? index ha).next fun target => ?_
    cases target with
    | none => exact .done _
    | some target =>
        refine findsIn_get.bind fun r hr => ?_
        have htree := hr.arena.tree target
        simp only
        split
        · next hpaint =>
            exact (staysIn_paintElement s _ htree (htree.element hpaint)).next fun _ => .done _
        · exact (staysIn_error ha.raw.valueSpan _).next fun _ => .done _

section

variable {e : Element} (he : e.Faithful source)

include he

theorem staysIn_figurePaint? (index : DocumentIndex) (name : String) (s : Scope α) :
    StaysIn source (figurePaint? index e name s) := by
  unfold figurePaint?
  refine (findsIn_attribute? he name).bindOption (.done _) fun a ha => ?_
  exact staysIn_paint? index ha s

theorem staysIn_figureClip : StaysIn source (figureClip e) := by
  unfold figureClip
  refine (findsIn_attribute? he _).bindOption (.done _) fun a ha => ?_
  have hvalue := ha.raw.valueSpan
  simp only
  split
  all_goals first | exact .done _ | exact (staysIn_error hvalue _).next fun _ => .done _

theorem staysIn_withTransform (style : Style α) (outer own : Expression α (Transform α)) :
    StaysIn source (style.withTransform e outer own) := by
  unfold Style.withTransform
  split
  · exact .done _
  · split
    · next ha =>
        exact (staysIn_error (he.attribute? ha).raw.valueSpan _).next fun _ => .done _
    · exact (FindsIn.done _).next fun _ => .done _

theorem staysIn_figureStyle (index : DocumentIndex) (s : Scope α) (outer : Style α) :
    StaysIn source (figureStyle index e s outer) := by
  unfold figureStyle
  refine (staysIn_figurePaint? he index _ s).next fun _ =>
    (staysIn_figurePaint? he index _ s).next fun _ => (staysIn_typed? he _ s _).next fun _ =>
      (staysIn_typed? he _ s _).next fun _ => (staysIn_typed? he _ s _).next fun _ =>
        (staysIn_typed? he _ s _).next fun own => ?_
  cases own with
  | none => exact (FindsIn.done _).next fun _ => (staysIn_figureClip he).next fun _ => .done _
  | some own =>
      exact (staysIn_withTransform he _ _ own).next fun _ =>
        (staysIn_figureClip he).next fun _ => .done _

end

end PatternMarkup
