import PatternMarkup.Number.Double
import PatternMarkup.Pattern.Bind.Document
import PatternMarkup.Proofs.Pattern.ReadingPlaces
import PatternMarkup.Proofs.Pattern.UnusablePatterns
import PatternMarkup.Proofs.Pattern.UnusedReport
/-!
The places of reports. Reading figures, copies of targets and patterns reports what reading their
elements does, and a copy has the places of what it is a copy of. So every report points at source
text, but for one: that of a wrong path is at one byte, which may be one of several of a character.
-/

namespace PatternMarkup

open Binder

variable {source : String} {α : Type} [Number α]

/-! ### Figures and copies -/

theorem staysIn_openFigure (index : DocumentIndex) (tag : FigureTag) {tree : Tree}
    (htree : tree.Faithful source) {e : Element} (he : e.Faithful source) (place : Place α) :
    StaysIn source (openFigure index tag tree e place) := by
  have hnumber : StaysIn source nextFigure :=
    fun _ hr => ⟨trivial, hr.arena, hr.reports, hr.areas⟩
  exact (staysIn_markNode tree).next fun _ => hnumber.next fun _ =>
    (staysIn_figureLoop he _).next fun _ => (staysIn_figureVariables htree.children _).next fun _ =>
      (staysIn_figureKind he index tag htree.children _).next fun _ =>
        (staysIn_figureStyle he index _ _).next fun _ => .done _

theorem staysIn_bindFigure (index : DocumentIndex) (tag : FigureTag) {tree : Tree}
    (htree : tree.Faithful source) {e : Element} (he : e.Faithful source) (place : Place α)
    {inside : Place α → Binder (List (Figure α))}
    (hinside : ∀ inner, StaysIn source (inside inner)) :
    StaysIn source (bindFigure index tag tree e place inside) := by
  have hclose : ∀ head : FigureHead α, StaysIn source (closeFigure head tree) :=
    fun _ _ hr => ⟨trivial, hr.arena, hr.reports, hr.areas⟩
  unfold bindFigure
  refine (staysIn_openFigure index tag htree he place).next fun opened => ?_
  obtain ⟨head, inner⟩ := opened
  simp only
  split
  · exact (FindsIn.done _).next fun _ => (hclose head).next fun _ => .done _
  · exact (hinside inner).next fun _ => (hclose head).next fun _ => .done _

theorem findsIn_copyTarget (target : NodeId) {overrides : List Attribute}
    (hoverrides : ∀ o ∈ overrides, o.Faithful source) :
    FindsIn source (copyTarget target overrides) fun copy => copy.Faithful source := by
  intro r hr
  have harena := hr.arena.copySubtree (r.arena.source target) hoverrides
  exact ⟨harena.tree _, harena, hr.reports, hr.areas⟩

/-- A copy stands where the target and the passed attributes do. -/
theorem findsIn_useCopy? {e : Element} (he : e.Faithful source) {href : Attribute}
    (hhref : href.Faithful source) (target : NodeId) :
    FindsIn source (useCopy? e href target) fun found => ∀ copy ∈ found, copy.Faithful source := by
  have hpassed : ∀ o ∈ passedAttributes e, o.Faithful source := fun o ho =>
    he.attributes o (List.mem_of_mem_filter ho)
  unfold useCopy?
  refine findsIn_get.bind fun r _ => ?_
  simp only
  split
  · exact (staysIn_forM fun _ _ => staysIn_mark _).next fun _ =>
      (findsIn_copyTarget target hpassed).bind fun copy hcopy => .some hcopy
  · exact (staysIn_error hhref.raw.valueSpan _).next fun _ => .none

theorem findsIn_useTarget? (index : DocumentIndex) (tree : Tree) {e : Element}
    (he : e.Faithful source) : FindsIn source (useTarget? index tree e) fun found =>
      ∀ use ∈ found, use.1.Faithful source := by
  unfold useTarget?
  refine (staysIn_markNode tree).next fun _ =>
    (findsIn_requiredAttribute? he _).bindOption .none fun href hhref => ?_
  refine (staysIn_reference? index hhref).next fun target => .pure fun use huse => ?_
  obtain ⟨target, -, rfl⟩ := Option.map_eq_some_iff.mp huse
  exact hhref

/-- What a way to read trees adds stands in the source, if the trees do. -/
def TreeBinder.StaysIn (source : String) (bindTree : TreeBinder α) : Prop :=
  ∀ tree place, tree.Faithful source → Binder.StaysIn source (bindTree tree place)

section

variable {index : DocumentIndex} {expand : NodeId → Option (TreeBinder α)}

omit [Number α] in
theorem staysIn_bindUse
    (hexpand : ∀ target bindCopy, expand target = some bindCopy → bindCopy.StaysIn source)
    (tree : Tree) {e : Element} (he : e.Faithful source) (place : Place α) :
    Binder.StaysIn source (bindUse index expand tree e place) := by
  unfold bindUse
  refine (findsIn_useTarget? index tree he).bindOption (.done _) fun use hhref => ?_
  obtain ⟨href, target⟩ := use
  simp only
  unfold bindReference
  split
  · exact (staysIn_error hhref.raw.valueSpan _).next fun _ => .done _
  · next bindCopy hexpanded =>
      refine (findsIn_useCopy? he hhref target).bindOption (.done _) fun copy hcopy => ?_
      exact hexpand target bindCopy hexpanded copy place hcopy

theorem staysIn_passOver {tree : Tree} (htree : tree.Faithful source) (e : Element) (tag : Tag) :
    Binder.StaysIn source (passOver tree e tag) := by
  have hreject : ∀ name, Binder.StaysIn source (rejectDeclaration tree name) := by
    intro name
    unfold rejectDeclaration
    have hread : Binder.StaysIn source (wasRead tree) := findsIn_get.bind fun _ _ => .done _
    refine hread.next fun read => ?_
    cases read with
    | true => exact .done _
    | false => exact staysIn_reject htree _
  unfold passOver
  split
  · exact .done _
  · exact hreject _
  · exact hreject _
  · exact hreject _
  · exact staysIn_markTree tree
  · exact staysIn_markTree tree
  · exact .done _
  · exact staysIn_markNode tree
  · exact staysIn_reject htree _
  · exact staysIn_reject htree _

mutual

theorem staysIn_bindTree
    (hexpand : ∀ target bindCopy, expand target = some bindCopy → bindCopy.StaysIn source) :
    ∀ tree (place : Place α), tree.Faithful source →
      Binder.StaysIn source (bindTree index expand tree place)
  | .node id content children, place, htree => by
      unfold bindTree
      simp only
      split
      · exact .done _
      · next e tag helement =>
          refine (staysIn_bindFigure index tag htree (htree.element helement) place fun inner =>
            ?_).next fun _ => .done _
          exact staysIn_bindTrees hexpand children inner htree.children
      · next e helement => exact staysIn_bindUse hexpand _ (htree.element helement) place
      · exact (staysIn_passOver htree _ _).next fun _ => .done _

theorem staysIn_bindTrees
    (hexpand : ∀ target bindCopy, expand target = some bindCopy → bindCopy.StaysIn source) :
    ∀ trees (place : Place α), Tree.AllFaithful source trees →
      Binder.StaysIn source (bindTrees index expand trees place)
  | [], _, _ => .done _
  | tree :: rest, place, htrees => by
      unfold bindTrees
      exact (staysIn_bindTree hexpand tree place htrees.1).next fun _ =>
        (staysIn_bindTrees hexpand rest place htrees.2).next fun _ => .done _

end

end

/-- Copies in copies stand in the source too; the induction is on the targets that are left. -/
theorem staysIn_expandTarget (index : DocumentIndex) (expanding : List NodeId) (target : NodeId)
    (bindCopy : TreeBinder α) (h : expandTarget index expanding target = some bindCopy) :
    bindCopy.StaysIn source := by
  rw [expandTarget] at h
  split at h
  · next hfree =>
      obtain rfl := Option.some.inj h
      have := index.length_freeTargets_lt hfree
      exact staysIn_bindTree fun inner bindInner hinner =>
        staysIn_expandTarget index (target :: expanding) inner bindInner hinner
  · cases h
termination_by (index.freeTargets expanding).length

/-! ### Patterns and libraries -/

theorem staysIn_firstText (tag : Tag) (known : Option String)
    (entries : List (Tree × Element × Tag)) :
    Binder.StaysIn source (firstText tag known entries) := by
  induction entries generalizing known with
  | nil => exact .done _
  | cons entry rest ih =>
      obtain ⟨tree, e, found⟩ := entry
      have htext : Binder.StaysIn source (innerText tree) :=
        (staysIn_markTree tree).next fun _ => .done _
      unfold firstText
      split
      · exact htext.next fun _ => ih _
      · exact ih _

section

variable {e : Element} (he : e.Faithful source)

include he

theorem staysIn_patternHead (tree : Tree) : Binder.StaysIn source (patternHead tree e) := by
  have hname : Binder.StaysIn source (patternName? e) :=
    (staysIn_attributeText? he _).next fun _ => .done _
  refine (staysIn_markNode tree).next fun _ => hname.next fun name =>
    (findsIn_attribute? he _).bind fun written hwritten => FindsIn.next ?_ fun _ => .done _
  unfold reportUnusable
  split
  · next d hd =>
      refine staysIn_report (.inl ?_)
      unfold unusableReport? at hd
      simp only at hd
      split at hd
      · obtain rfl := Option.some.inj hd
        exact he.nameSpan
      · split at hd
        · obtain rfl := Option.some.inj hd
          exact (hwritten _ rfl).raw.valueSpan
        · cases hd
  · exact .done _

theorem staysIn_patternParts {tree : Tree} (htree : tree.Faithful source) (kind : PatternKind) :
    Binder.StaysIn source (patternParts (α := α) tree e kind) :=
  (staysIn_declaredArguments _ _ htree.children.elements).next fun _ =>
    (staysIn_declaredValidations _ htree.children.elements).next fun _ =>
      (staysIn_constant? he _).next fun _ => (staysIn_constant? he _).next fun _ =>
        (staysIn_attributeText? he _).next fun _ => (staysIn_firstText _ _ _).next fun _ =>
          (staysIn_firstText _ _ _).next fun _ =>
            (staysIn_modifyAreas fun _ _ => List.forall_mem_nil _).next fun _ => .done _

theorem staysIn_checkRoles (kind : PatternKind) : Binder.StaysIn source (checkRoles kind e) := by
  have hareas : ∀ (areas : List (String × Span)) seen, (∀ area ∈ areas, area.2.Faithful source) →
      Binder.StaysIn source (checkAreas kind seen areas) := by
    intro areas seen h
    induction areas generalizing seen with
    | nil => exact .done _
    | cons area rest ih =>
        obtain ⟨role, span⟩ := area
        obtain ⟨hspan, hrest⟩ := List.forall_mem_cons.mp h
        unfold checkAreas
        split
        · exact (staysIn_error hspan _).next fun _ => ih _ hrest
        · split
          · exact (staysIn_error hspan _).next fun _ => ih _ hrest
          · exact ih _ hrest
  unfold checkRoles
  refine findsIn_get.bind fun r hr =>
    (staysIn_modifyAreas fun _ _ => List.forall_mem_nil _).next fun _ =>
      (hareas _ _ hr.areas).next fun seen => ?_
  simp only
  split
  · exact .done _
  · exact staysIn_error he.nameSpan _

theorem findsIn_bindPattern (index : DocumentIndex) (library : String) {tree : Tree}
    (htree : tree.Faithful source) :
    FindsIn source (bindPattern (α := α) index library tree e) fun p => p.span.Faithful source := by
  have hcontent : ∀ kind, Binder.StaysIn source (patternContent (α := α) index tree e kind) := by
    intro kind
    refine (staysIn_patternParts he htree kind).next fun parts => FindsIn.next ?_ fun _ =>
      (staysIn_checkRoles he kind).next fun _ => .done _
    exact staysIn_bindFigure index .div htree he _ fun inner =>
      staysIn_bindTrees (staysIn_expandTarget index []) tree.children inner htree.children
  unfold bindPattern
  refine findsIn_get.bind fun _ _ => (staysIn_patternHead he tree).next fun head => ?_
  obtain ⟨name, kind⟩ := head
  simp only
  split
  · exact (hcontent _).next fun _ => (FindsIn.done _).next fun _ => findsIn_get.bind fun _ _ =>
      .pure htree.content.span
  · exact (staysIn_markTree tree).next fun _ => (FindsIn.done _).next fun _ =>
      findsIn_get.bind fun _ _ => .pure htree.content.span

omit [Number α] in
theorem staysIn_reportDuplicate (names : List String) {p : Pattern α}
    (hp : p.span.Faithful source) : Binder.StaysIn source (reportDuplicate names e p) := by
  unfold reportDuplicate
  split
  · refine staysIn_error ?_ _
    cases hname : e.attribute? "name" with
    | none => exact hp
    | some a => exact (he.attribute? hname).raw.valueSpan
  · exact .done _

theorem staysIn_bindLibraryName (o : BindOptions) :
    Binder.StaysIn source (bindLibraryName o e) := by
  unfold bindLibraryName
  refine (staysIn_attributeText? he _).next fun name => ?_
  split
  · split
    · exact (staysIn_error he.nameSpan _).next fun _ => .done _
    · exact .done _
  · exact (staysIn_error he.nameSpan _).next fun _ => .done _

end

theorem staysIn_bindEntries (index : DocumentIndex) (library : String) (names : List String)
    {entries : List (Tree × Element × Tag)} (hentries : EntriesIn source entries) :
    Binder.StaysIn source (bindEntries (α := α) index library names entries) := by
  induction entries generalizing names with
  | nil => exact .done _
  | cons entry rest ih =>
      obtain ⟨tree, e, tag⟩ := entry
      obtain ⟨⟨htree, he⟩, hrest⟩ := List.forall_mem_cons.mp hentries
      unfold bindEntries
      split
      · exact (findsIn_bindPattern he index library htree).bind fun p hp =>
          (staysIn_reportDuplicate he names hp).next fun _ => (ih _ hrest).next fun _ => .done _
      · exact (staysIn_markNode tree).next fun _ => ih names hrest
      · exact (staysIn_markTree tree).next fun _ => ih names hrest
      · exact (staysIn_markTree tree).next fun _ => ih names hrest
      · exact (FindsIn.done ()).next fun _ => ih names hrest
      · exact (staysIn_reject htree _).next fun _ => ih names hrest
      · exact (staysIn_reject htree _).next fun _ => ih names hrest

theorem staysIn_bindRoot (index : DocumentIndex) (o : BindOptions) {tree : Tree}
    (htree : tree.Faithful source) :
    Binder.StaysIn source (bindRoot (α := α) index o tree) := by
  unfold bindRoot
  split
  · next e helement =>
      exact (staysIn_markNode tree).next fun _ =>
        (staysIn_bindLibraryName (htree.element helement) o).next fun _ =>
          staysIn_bindEntries index _ [] htree.children.elements
  · next e helement =>
      exact (findsIn_bindPattern (htree.element helement) index _ htree).bind fun _ _ => .done _
  · exact (staysIn_reject htree _).next fun _ => .done _

/-! ### Documents -/

theorem staysIn_collectIds (ids : List (String × NodeId)) {attributes : List Attribute}
    (h : ∀ a ∈ attributes, a.Faithful source) :
    Binder.StaysIn source (collectIds ids attributes) := by
  induction attributes generalizing ids with
  | nil => exact .done _
  | cons a rest ih =>
      obtain ⟨ha, hrest⟩ := List.forall_mem_cons.mp h
      unfold collectIds
      refine (staysIn_mark _).next fun _ => ?_
      simp only
      split
      · exact (staysIn_error ha.raw.valueSpan _).next fun _ => ih _ hrest
      · exact ih _ hrest

theorem Arena.Faithful.idAttributes {a : Arena} (h : a.Faithful source) :
    ∀ x ∈ idAttributes a, x.Faithful source := by
  intro x hx
  obtain ⟨n, hn, hfound⟩ := List.mem_filterMap.mp hx
  obtain ⟨e, he, hid⟩ := Option.bind_eq_some_iff.mp hfound
  obtain ⟨i, hi, rfl⟩ := List.getElem_of_mem hn
  have hlt : i < a.nodes.size := by simpa using hi
  have hnode : a.node i = a.nodes.toList[i] := by
    rw [Arena.node, Array.getD_eq_getD_getElem?, Array.getElem?_eq_getElem hlt]
    rfl
  exact ((h i).of_element? (hnode ▸ he)).attribute? hid

theorem staysIn_bindPatterns (o : BindOptions) {doc : Document}
    (hdoc : doc.arena.Faithful source) :
    Binder.StaysIn source (bindPatterns (α := α) o doc) := by
  unfold bindPatterns
  refine (staysIn_collectIds [] hdoc.idAttributes).next fun ids => ?_
  split
  · exact staysIn_bindRoot _ o (hdoc.tree _)
  · exact (staysIn_error (Span.faithful_origin source) _).next fun _ => .done _

/-- The warnings about what was not read point at nodes and at names of attributes. -/
theorem Usage.pointsAt_unused (u : Usage) {doc : Document} (hdoc : doc.arena.Faithful source) :
    ∀ d ∈ u.unused doc, d.PointsAt source := by
  intro d hd
  rw [unused_eq] at hd
  obtain ⟨v, hv, rfl⟩ := List.mem_map.mp hd
  have hvisit := List.mem_of_mem_filter hv
  cases v with
  | element id e => exact .inl (hdoc id).span
  | attr id x =>
      have htrees : Tree.AllFaithful source (doc.topLevel.map doc.arena.tree) := by
        refine Tree.allFaithful_iff.mpr fun tree htree => ?_
        obtain ⟨id, -, rfl⟩ := List.mem_map.mp htree
        exact hdoc.tree id
      exact .inl (htrees.visits _ hvisit).raw.nameSpan
  | text id content blank => exact .inl (hdoc id).span
  | comment id content => exact .inl (hdoc id).span

/-- Reading a text finds nodes and faults where their spans say. -/
theorem Document.liesIn_ofSource (source : String) (keepComments : Bool) :
    ({ arena := (ofSource source keepComments).arena
       diagnostics := (ofSource source keepComments).diagnostics } :
      DocumentReading).LiesIn source := by
  have hstream := TokenStream.faithful_ofSource source
  have htree := TreeBuilder.faithful_ofTokens keepComments hstream.tokens
  refine ⟨htree.arena, fun d hd => .inl ?_, List.forall_mem_nil _⟩
  obtain ⟨f, hf, rfl⟩ :=
    List.mem_map.mp (List.mem_of_find?_eq_some (Diagnostics.mem_items_ofList.mp hd))
  rcases List.mem_append.mp hf with hf | hf
  · exact hstream.faults f hf
  · exact htree.faults f (Array.mem_toList_iff.mp hf)

theorem Diagnostic.PointsAt.stop_le {d : Diagnostic} (h : d.PointsAt source) :
    d.span.offset + d.span.length ≤ source.utf8ByteSize := by
  have hsize := byteLength_toList source
  rcases h with ⟨piece, before, after, hsource, hspan⟩ | ⟨-, before, c, after, hsource, hc, hspan⟩
  · rw [hsource, byteLength_append, byteLength_append] at hsize
    rw [hspan, ← hsize]
    simp only [Span.ofPiece]
    omega
  · rw [hsource, byteLength_append, byteLength_cons] at hsize
    rw [hspan, ← hsize]
    simp only
    omega

/-! ### Wrong paths -/

namespace Binder

variable {β γ : Type} {span : Span}

/-- Whatever was found before, after a step there is a report at a span. -/
def ReportsAt (span : Span) (step : Binder β) : Prop :=
  ∀ r, span ∈ (step r).2.diagnostics.items.map Diagnostic.span

theorem ReportsAt.of_next {step : Binder β} {next : β → Binder γ}
    (hnext : ∀ x, ReportsAt span (next x)) : ReportsAt span (step >>= next) :=
  fun _ => hnext _ _

theorem ReportsAt.of_gives {step : Binder β} {next : β → Binder γ} {P : β → Prop}
    (h : Gives step P) (hnext : ∀ x, P x → ReportsAt span (next x)) :
    ReportsAt span (step >>= next) :=
  fun r => hnext _ (h r) _

/-- The steps after one that reports take no report back. -/
theorem ReportsAt.bind {step : Binder β} {next : β → Binder γ} (h : ReportsAt span step)
    (hnext : ∀ x r, r.diagnostics.items <+: (next x r).2.diagnostics.items) :
    ReportsAt span (step >>= next) :=
  fun r => ((hnext _ _).map Diagnostic.span).subset (h r)

theorem ReportsAt.reads {step : Binder β} {next : β → Binder γ} (h : ReportsAt span step)
    (hnext : ∀ x, Reads (next x)) : ReportsAt span (step >>= next) :=
  h.bind fun x r => Finds.items_prefix ((hnext x).finds (α := Unit) r)

theorem reportsAt_errorBecause (span : Span) (message cause : String) :
    ReportsAt span (errorBecause span message cause) := by
  intro r
  let d := (Diagnostic.error .meaning span message).because cause
  show d.span ∈ (r.diagnostics.push d).items.map Diagnostic.span
  by_cases hmem : d.span ∈ r.diagnostics.items.map Diagnostic.span
  · rw [Diagnostics.items_push_of_mem hmem]
    exact hmem
  · rw [Diagnostics.items_push_of_not_mem hmem, List.map_append]
    exact List.mem_append_right _ (List.mem_singleton_self _)

theorem gives_requiredAttribute? {e : Element} {name : String} {a : Attribute}
    (ha : e.attribute? name = some a) : Gives (requiredAttribute? e name) (· = some a) := by
  intro r
  obtain ⟨usage, hread⟩ := attribute?_apply e name r
  rw [requiredAttribute?, bind_apply, hread, ha]
  rfl

end Binder

section

variable {path : Element} {a : Attribute} {fault : PathError} {span : Span}

/-- A path that is wrong is reported at the byte where the error shows. -/
theorem reportsAt_pathData (ha : path.attribute? "d" = some a)
    (hfault : (Path.read a.value : Except PathError (Path α)) = .error fault) :
    ReportsAt (a.subSpan ⟨fault.offset, fault.offset + 1⟩) (pathData (α := α) path) := by
  refine .of_gives (gives_requiredAttribute? ha) fun found hfound => ?_
  subst hfound
  simp only [hfault]
  exact (reportsAt_errorBecause _ _ _).reads fun _ => .pure _

/-- So it is by a figure of such a path, whatever else is read of it. -/
theorem reportsAt_bindTree (hdata : ReportsAt span (pathData (α := α) path)) (index : DocumentIndex)
    (expand : NodeId → Option (TreeBinder α)) {tree : Tree}
    (htree : tree.element? = some (path, .figure (.shape .path))) (hchildren : tree.children = [])
    (place : Place α) : ReportsAt span (bindTree index expand tree place) := by
  obtain ⟨id, content, children⟩ := tree
  obtain rfl : children = [] := hchildren
  have hkind : ∀ s : Scope α, ReportsAt span (figureKind index (.shape .path) path [] s) :=
    fun _ => (hdata.reads fun _ => .pure _).reads fun _ => .pure _
  have hopen : ReportsAt span
      (openFigure index (.shape .path) (.node id content []) path place) :=
    .of_next fun _ => .of_next fun _ => .of_next fun _ => .of_next fun _ =>
      (hkind _).reads fun _ => (reads_figureStyle ..).bind fun _ => .pure _
  unfold bindTree
  simp only [htree]
  refine ReportsAt.reads ?_ fun _ => .pure _
  exact hopen.bind fun _ _ => List.prefix_rfl

theorem reportsAt_bindTrees {index : DocumentIndex} {expand : NodeId → Option (TreeBinder α)}
    {tree : Tree} (htree : ∀ place, ReportsAt span (bindTree index expand tree place))
    (front : List Tree) (place : Place α) :
    ReportsAt span (bindTrees index expand (front ++ [tree]) place) := by
  induction front with
  | nil =>
      unfold bindTrees
      exact (htree place).reads fun _ => .pure _
  | cons first front ih =>
      unfold bindTrees
      exact .of_next fun _ => ih.reads fun _ => .pure _

theorem reportsAt_bindPattern (index : DocumentIndex) (library : String) {tree leaf : Tree}
    {e : Element} (hname : e.patternName?.isSome) (hkind : e.patternKind?.isSome)
    {front : List Tree} (hchildren : tree.children = front ++ [leaf])
    (hleaf : ∀ expand (place : Place α), ReportsAt span (bindTree index expand leaf place)) :
    ReportsAt span (bindPattern (α := α) index library tree e) := by
  have hbody : ∀ place : Place α, ReportsAt span (bindOutermost index .div tree e place) := by
    intro place
    refine .of_next fun opened => ReportsAt.bind ?_ fun _ _ => List.prefix_rfl
    simp only [hchildren]
    exact reportsAt_bindTrees (hleaf _) front _
  have hcontent : ∀ kind, ReportsAt span (patternContent (α := α) index tree e kind) := fun kind =>
    .of_next fun _ => (hbody _).reads fun _ => (reads_checkRoles kind e).bind fun _ => .pure _
  have hhead : Gives (patternHead tree e) (· = (e.patternName?, e.patternKind?)) := by
    intro r
    obtain ⟨usage, hread⟩ := patternHead_apply tree e r
    rw [hread]
  obtain ⟨name, hname⟩ := Option.isSome_iff_exists.mp hname
  obtain ⟨kind, hkind⟩ := Option.isSome_iff_exists.mp hkind
  refine .of_next fun _ => .of_gives hhead fun head hhead => ?_
  subst hhead
  simp only [hname, hkind]
  exact (hcontent kind).reads fun _ => (Reads.pure _).bind fun _ => Reads.look.bind fun _ => .pure _

/-- The same for all of a document that is one pattern, if the path comes last in it. -/
theorem reportsAt_bindPatterns (o : BindOptions) {doc : Document} {root : NodeId}
    (hroot : doc.root = some root) {e : Element}
    (he : (doc.arena.tree root).element? = some (e, .pattern))
    (hname : e.patternName?.isSome) (hkind : e.patternKind?.isSome) {front : List Tree}
    {leaf : Tree} (hchildren : (doc.arena.tree root).children = front ++ [leaf])
    (hpath : leaf.element? = some (path, .figure (.shape .path))) (hleaf : leaf.children = [])
    (hdata : ReportsAt span (pathData (α := α) path)) :
    ReportsAt span (bindPatterns (α := α) o doc) := by
  refine .of_next fun ids => ?_
  simp only [hroot]
  unfold bindRoot
  simp only [he]
  refine ReportsAt.reads ?_ fun _ => .pure _
  exact reportsAt_bindPattern _ _ hname hkind hchildren fun expand place =>
    reportsAt_bindTree hdata _ expand hpath hleaf place

end

/-- A path that starts with a character of two bytes. -/
def wrongPathSource : String := "<pattern name='p' type='widget'><path d='é'/></pattern>"

theorem read_wrongPath :
    (Path.read "é" : Except PathError (Path α)) = .error (.missingMoveTo 0) := by
  cbv

/-- It is reported at one byte. -/
theorem reported_wrongPath :
    ∃ d ∈ (bindSource wrongPathSource {} : BoundDocument Float).diagnostics.items,
      d.span = ⟨41, 1, 42, 1⟩ := by
  let doc := Document.ofSource wrongPathSource false
  have hroot : doc.root = some 0 := by decide +kernel
  have hpattern : (doc.arena.tree 0).element?.map (fun found =>
      (found.2, found.1.patternName?, found.1.patternKind?)) =
        some (.pattern, some "p", some .widget) := by decide +kernel
  have hpath : (doc.arena.tree 1).element?.map (·.2) = some (.figure (.shape .path)) := by
    decide +kernel
  have hdata : ((doc.arena.tree 1).element?.bind fun found => found.1.attribute? "d").map
      (fun a => (a.value, a.subSpan ⟨0, 1⟩)) = some ("é", ⟨41, 1, 42, 1⟩) := by decide +kernel
  have hchildren : (doc.arena.tree 0).children = [] ++ [doc.arena.tree 1] := by
    have hone : doc.arena.children 0 = [1] := by decide +kernel
    rw [Arena.tree_eq, hone]
    rfl
  have hleaf : (doc.arena.tree 1).children = [] := by
    have hnone : doc.arena.children 1 = [] := by decide +kernel
    rw [Arena.tree_eq, hnone]
    rfl
  obtain ⟨⟨e, tag⟩, he, heq⟩ := Option.map_eq_some_iff.mp hpattern
  obtain ⟨rfl, hname, hkind⟩ : tag = _ ∧ e.patternName? = _ ∧ e.patternKind? = _ := by
    simpa using heq
  obtain ⟨⟨path, tag⟩, hpath, rfl⟩ := Option.map_eq_some_iff.mp hpath
  rw [hpath, Option.bind_some] at hdata
  obtain ⟨a, ha, heq⟩ := Option.map_eq_some_iff.mp hdata
  obtain ⟨hvalue, hspan⟩ := Prod.mk.inj heq
  have hfault : (Path.read a.value : Except PathError (Path Float)) =
      .error (.missingMoveTo 0) := by
    rw [hvalue]
    exact read_wrongPath
  have hreported := reportsAt_bindPatterns {} hroot he (by rw [hname]; rfl) (by rw [hkind]; rfl)
    hchildren hpath hleaf (reportsAt_pathData ha hfault)
  obtain ⟨d, hd, hplace⟩ := List.mem_map.mp (hreported _)
  exact ⟨d, (Diagnostics.items_prefix_pushAll _ _).subset hd, hplace.trans hspan⟩

/-! ### All reports of a document -/

/-- Every report about a document ends within the source and starts and ends between characters of
it, but for a report of a wrong path. That one may be at the first of several bytes of a character,
and so end inside the character. -/
theorem bindSource_pointsAt (source : String) (o : BindOptions) :
    ∀ d ∈ (bindSource source o : BoundDocument α).diagnostics.items,
      d.span.offset + d.span.length ≤ source.utf8ByteSize ∧ d.PointsAt source := by
  have hstart := Document.liesIn_ofSource source o.keepComments
  obtain ⟨-, hread⟩ := staysIn_bindPatterns (α := α) o hstart.arena _ hstart
  suffices hpoints : ∀ d ∈ (bindSource source o : BoundDocument α).diagnostics.items,
      d.PointsAt source from fun d hd => ⟨(hpoints d hd).stop_le, hpoints d hd⟩
  intro d hd
  rcases Diagnostics.mem_items_pushAll.mp hd with hd | ⟨-, hd⟩
  · exact hread.reports d hd
  · have hunused := List.mem_of_find?_eq_some hd
    split at hunused
    · exact Usage.pointsAt_unused _ hread.arena d hunused
    · cases hunused

/-- The report of a path of one character of two bytes is where it says. -/
theorem bindSource_pointsAt_wrongPath :
    ∃ d ∈ (bindSource wrongPathSource {} : BoundDocument Float).diagnostics.items,
      d.span = ⟨41, 1, 42, 1⟩ ∧
        d.span.offset + d.span.length ≤ wrongPathSource.utf8ByteSize ∧
        d.PointsAt wrongPathSource := by
  obtain ⟨d, hd, hspan⟩ := reported_wrongPath
  exact ⟨d, hd, hspan, bindSource_pointsAt wrongPathSource {} d hd⟩

/-- It ends inside the character. -/
theorem bindSource_cuts_character :
    ∃ d ∈ (bindSource wrongPathSource {} : BoundDocument Float).diagnostics.items,
      d.span.length = 1 ∧ d.span.slice? wrongPathSource = none := by
  obtain ⟨d, hd, hspan⟩ := reported_wrongPath
  refine ⟨d, hd, ?_⟩
  rw [hspan]
  decide +kernel

end PatternMarkup
