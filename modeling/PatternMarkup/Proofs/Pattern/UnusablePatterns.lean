import PatternMarkup.Number.Double
import PatternMarkup.Proofs.Pattern.BoundFigures
/-!
What is reported of a pattern that cannot be used. Reports are made in order and never taken
back, so the only way its report gets lost is that its place is taken: by an earlier report there,
which may be no more than a warning.
-/

namespace PatternMarkup

open Binder

/-! ### Reports in order -/

namespace Diagnostics

theorem items_prefix_push (ds : Diagnostics) (d : Diagnostic) :
    ds.items <+: (ds.push d).items := by
  by_cases hmem : d.span ∈ ds.items.map Diagnostic.span
  · simp only [items_push_of_mem hmem, List.prefix_rfl]
  · rw [items_push_of_not_mem hmem]
    exact List.prefix_append _ _

theorem items_prefix_pushAll (ds : Diagnostics) (made : List Diagnostic) :
    ds.items <+: (ds.pushAll made).items := by
  induction made generalizing ds with
  | nil => exact List.prefix_rfl
  | cons d made ih => exact (ds.items_prefix_push d).trans (ih (ds.push d))

end Diagnostics

variable {α : Type}

theorem Finds.items_prefix {r r' : DocumentReading} {heads : List (FigureHead α)}
    (h : Finds r heads r') : r.diagnostics.items <+: r'.diagnostics.items := by
  obtain ⟨made, hmade⟩ := h.reports
  rw [hmade]
  exact r.diagnostics.items_prefix_pushAll made

/-! ### The report of a pattern -/

namespace Element

/-- The name of a pattern, if it is not blank. -/
def patternName? (e : Element) : Option String :=
  ((e.attribute? "name").map fun a => trimText a.value).filter (· != "")

/-- The kind of a pattern, if its type names one. -/
def patternKind? (e : Element) : Option PatternKind :=
  (e.attribute? "type").bind fun a => PatternKind.ofName? (trimText a.value)

/-- The report of what keeps a pattern from being used, if anything does. -/
def unusable? (e : Element) : Option Diagnostic :=
  unusableReport? e e.patternName? (e.attribute? "type") e.patternKind?

theorem unusable?_isSome {e : Element} (h : e.patternName? = none ∨ e.patternKind? = none) :
    ∃ report, e.unusable? = some report ∧ report.isError = true := by
  unfold unusable? unusableReport? missingParts
  rcases hname : e.patternName? with _ | name
  · exact ⟨_, rfl, rfl⟩
  · rcases hwritten : e.attribute? "type" with _ | written
    · exact ⟨_, rfl, rfl⟩
    · rw [h.resolve_left (by rw [hname]; exact Option.some_ne_none name)]
      exact ⟨_, rfl, rfl⟩

end Element

theorem attribute?_apply (e : Element) (name : String) (r : DocumentReading) :
    ∃ usage, attribute? e name r = (e.attribute? name, { r with usage }) := by
  unfold attribute?
  cases e.attribute? name with
  | some a => exact ⟨_, rfl⟩
  | none => exact ⟨_, rfl⟩

/-- Reading what a pattern is makes no report but that of what keeps it from being used. -/
theorem patternHead_apply (tree : Tree) (e : Element) (r : DocumentReading) :
    ∃ usage, patternHead tree e r = ((e.patternName?, e.patternKind?), { r with
      usage
      diagnostics := match e.unusable? with
        | some report => r.diagnostics.push report
        | none => r.diagnostics }) := by
  obtain ⟨usage, hname⟩ := attribute?_apply e "name" (markNode tree r).2
  obtain ⟨usage', htype⟩ := attribute?_apply e "type" { (markNode tree r).2 with usage }
  refine ⟨usage', ?_⟩
  simp only [patternHead, patternName?, attributeText?, bind_apply, pure_apply, hname, htype]
  rw [Option.map_map]
  change ((e.patternName?, e.patternKind?),
    (reportUnusable e e.patternName? (e.attribute? "type") e.patternKind? _).2) = _
  unfold reportUnusable Element.unusable?
  cases unusableReport? e e.patternName? (e.attribute? "type") e.patternKind? <;> rfl

/-- Whether a pattern's own reports, in the order of all reports, are just the one of what keeps
it from being used, or nothing if there is an earlier report at the place of that one. -/
def Pattern.IsReported (a : Arena) (items : List Diagnostic) (p : Pattern α) : Prop :=
  ∃ e report before, a.element? p.node = some e ∧ e.unusable? = some report ∧
    report.isError = true ∧ before ++ p.diagnostics <+: items ∧
    p.diagnostics = if report.span ∈ before.map Diagnostic.span then [] else [report]

theorem Pattern.IsReported.mono {a b : Arena} {items more : List Diagnostic} {p : Pattern α}
    (h : p.IsReported a items) (hgrows : a.GrowsTo b) (hitems : items <+: more) :
    p.IsReported b more := by
  obtain ⟨e, report, before, he, hreport, herror, hbefore, hown⟩ := h
  refine ⟨e, report, before, ?_, hreport, herror, hbefore.trans hitems, hown⟩
  rw [Arena.element?, hgrows.kept _ (Arena.lt_size_of_element? he)]
  exact he

theorem Pattern.IsReported.finds {r r' : DocumentReading} {heads : List (FigureHead α)}
    {p : Pattern α} (h : p.IsReported r.arena r.diagnostics.items) (hfinds : Finds r heads r') :
    p.IsReported r'.arena r'.diagnostics.items :=
  h.mono hfinds.arena hfinds.items_prefix

variable [Number α]

/-- What binding a pattern that cannot be used comes to. -/
theorem bindPattern_unusable {index : DocumentIndex} {library : String} {tree : Tree}
    {e : Element} {r r' : DocumentReading} {p : Pattern α}
    (hp : bindPattern index library tree e r = (p, r')) (hunusable : p.isError = true) :
    ∃ report, e.unusable? = some report ∧ report.isError = true ∧ p.node = tree.id ∧
      r'.arena = r.arena ∧ r'.diagnostics = r.diagnostics.push report ∧
      p.diagnostics = r'.diagnostics.items.drop r.diagnostics.size := by
  obtain ⟨usage, hhead⟩ := patternHead_apply tree e r
  have hskipped : ∀ name, (e.patternName? = none ∨ e.patternKind? = none) →
      bindPattern index library tree e r = ((⟨name, library, none, tree.id, tree.content.span,
        (patternHead tree e r).2.diagnostics.items.drop r.diagnostics.size⟩ : Pattern α),
        (markTree tree (patternHead tree e r).2).2) →
      ∃ report, e.unusable? = some report ∧ report.isError = true ∧ p.node = tree.id ∧
        r'.arena = r.arena ∧ r'.diagnostics = r.diagnostics.push report ∧
        p.diagnostics = r'.diagnostics.items.drop r.diagnostics.size := by
    intro name hnone hrun
    obtain ⟨report, hreport, herror⟩ := e.unusable?_isSome hnone
    obtain ⟨rfl, rfl⟩ := Prod.mk.inj (hp.symm.trans hrun)
    rw [hhead, hreport]
    exact ⟨report, rfl, herror, rfl, rfl, rfl, rfl⟩
  rcases hname : e.patternName? with _ | name
  · refine hskipped Pattern.unnamed (.inl hname) ?_
    simp only [bindPattern, bind_apply, get_apply, hhead, hname]
    rfl
  · rcases hkind : e.patternKind? with _ | kind
    · refine hskipped name (.inr hkind) ?_
      simp only [bindPattern, bind_apply, get_apply, hhead, hname, hkind]
      rfl
    · simp only [bindPattern, bind_apply, get_apply, hhead, hname, hkind] at hp
      obtain ⟨rfl, -⟩ := Prod.mk.inj hp
      cases hunusable

theorem isReported_bindPattern {index : DocumentIndex} {library : String} {tree : Tree}
    {e : Element} {r r' : DocumentReading} (hstands : tree.StandsIn r.arena)
    (he : tree.content.element? = some e) {p : Pattern α}
    (hp : bindPattern index library tree e r = (p, r')) (hunusable : p.isError = true) :
    p.IsReported r'.arena r'.diagnostics.items := by
  obtain ⟨report, hreport, herror, hnode, harena, hpushed, hown⟩ :=
    bindPattern_unusable hp hunusable
  -- A report goes to the end, unless its place is taken; the items before it stay.
  have hitems : r'.diagnostics.items = r.diagnostics.items ++
      if report.span ∈ r.diagnostics.items.map Diagnostic.span then [] else [report] := by
    rw [hpushed]
    split
    · next hmem => rw [Diagnostics.items_push_of_mem hmem, List.append_nil]
    · next hmem => exact Diagnostics.items_push_of_not_mem hmem
  rw [hitems, Diagnostics.size, List.drop_left] at hown
  refine ⟨e, report, r.diagnostics.items, ?_, hreport, herror, ?_, hown⟩
  · rw [harena, hnode]
    obtain ⟨id, content, children⟩ := tree
    obtain ⟨-, rfl, -⟩ := hstands
    exact he
  · simp only [hown, hitems, List.prefix_rfl]

theorem Tree.element_of_mem_elements {trees : List Tree} {entry : Tree × Element × Tag}
    (h : entry ∈ Tree.elements trees) : entry.1.content.element? = some entry.2.1 := by
  obtain ⟨tree, -, hfound⟩ := List.mem_filterMap.1 h
  obtain ⟨found, helement, rfl⟩ := Option.map_eq_some_iff.1 hfound
  obtain ⟨e, he, rfl⟩ := Option.map_eq_some_iff.1 helement
  exact he

section

variable {base : Arena} {index : DocumentIndex}

/-- Whether every pattern that a step gives and that cannot be used is reported in order. -/
def Binder.ReportsUnusable (step : Binder (List (Pattern α))) (r : DocumentReading) : Prop :=
  ∀ p ∈ (step r).1, p.isError = true →
    p.IsReported (step r).2.arena (step r).2.diagnostics.items

omit [Number α] in
theorem Binder.ReportsUnusable.of_nil {step : Binder (List (Pattern α))} {r : DocumentReading}
    (h : (step r).1 = []) : step.ReportsUnusable r :=
  fun _ hp => absurd (h ▸ hp) List.not_mem_nil

theorem reportsUnusable_bindEntries (hbase : base.IsWritten) (hindex : index.PointsInto base)
    (library : String) (names : List String) (entries : List (Tree × Element × Tag))
    {r : DocumentReading} (hgrows : base.GrowsTo r.arena)
    (hstand : ∀ entry ∈ entries,
      entry.1.StandsIn r.arena ∧ entry.1.content.element? = some entry.2.1) :
    (bindEntries (α := α) index library names entries).ReportsUnusable r := by
  induction entries generalizing names r with
  | nil => exact .of_nil rfl
  | cons entry entries ih =>
      obtain ⟨tree, e, tag⟩ := entry
      obtain ⟨hstands, helement⟩ := hstand _ List.mem_cons_self
      have hmore : ∀ names r', r.arena.GrowsTo r'.arena →
          (bindEntries (α := α) index library names entries).ReportsUnusable r' :=
        fun names r' hr' => ih names (hgrows.trans hr') fun entry hentry =>
          ⟨(hstand entry (List.mem_cons_of_mem _ hentry)).1.mono hr',
            (hstand entry (List.mem_cons_of_mem _ hentry)).2⟩
      have hpassed : ∀ {b : Binder Unit}, Reads b → (do
          b
          bindEntries (α := α) index library names entries).ReportsUnusable r :=
        fun hb => hmore names _ (hb.finds (α := α) r).arena
      unfold bindEntries
      split
      · have hpattern := accounts_bindPattern (α := α) hbase hindex library e hgrows hstands
        rcases hrun : bindPattern (α := α) index library tree e r with ⟨p, r'⟩
        rw [Accounts, hrun] at hpattern
        have hduplicate := (reads_reportDuplicate names e p).finds (α := α) r'
        have hr'' := hpattern.arena.trans hduplicate.arena
        have hrest := accounts_bindEntries (α := α) hbase hindex library
          (if p.isError then names else p.name :: names) entries (hgrows.trans hr'')
          fun entry hentry => (hstand entry (List.mem_cons_of_mem _ hentry)).1.mono hr''
        simp only [ReportsUnusable, bind_apply, pure_apply, hrun]
        intro q hq hunusable
        rcases List.mem_cons.1 hq with rfl | hq
        · exact ((isReported_bindPattern hstands helement hrun hunusable).finds hduplicate).finds
            hrest
        · exact hmore _ _ hr'' q hq hunusable
      · exact hpassed (reads_markNode tree)
      · exact hpassed (reads_markTree tree)
      · exact hpassed (reads_markTree tree)
      · exact hmore names r (.refl _)
      · exact hpassed (reads_reject tree _)
      · exact hpassed (reads_reject tree _)

theorem reportsUnusable_bindRoot (hbase : base.IsWritten) (hindex : index.PointsInto base)
    (o : BindOptions) {tree : Tree} {r : DocumentReading} (hgrows : base.GrowsTo r.arena)
    (hstands : tree.element?.isSome → tree.StandsIn r.arena) :
    (bindRoot (α := α) index o tree).ReportsUnusable r := by
  unfold bindRoot
  split
  · next e hfound =>
      have hstands := hstands (by rw [hfound]; rfl)
      have hopen := ((reads_markNode tree).bind fun _ => reads_bindLibraryName o e).finds (α := α) r
      exact reportsUnusable_bindEntries hbase hindex _ [] _ (hgrows.trans hopen.arena)
        fun entry hentry =>
          ⟨Tree.standsIn_of_mem_elements (hstands.mono hopen.arena).children hentry,
            Tree.element_of_mem_elements hentry⟩
  · next e hfound =>
      have hstands := hstands (by rw [hfound]; rfl)
      obtain ⟨e', he', heq⟩ := Option.map_eq_some_iff.1 hfound
      obtain rfl : e' = e := congrArg Prod.fst heq
      rintro p hp hunusable
      obtain rfl := List.mem_singleton.1 hp
      exact isReported_bindPattern hstands he' rfl hunusable
  · exact .of_nil rfl

end

theorem reportsUnusable_bindPatterns (o : BindOptions) {doc : Document}
    (hdoc : doc.arena.IsWritten) {r : DocumentReading} (hr : r.arena = doc.arena) :
    (bindPatterns (α := α) o doc).ReportsUnusable r := by
  have hread := (reads_collectIds [] (idAttributes doc.arena)).finds (α := α) r
  have hgrows : doc.arena.GrowsTo (collectIds [] (idAttributes doc.arena) r).2.arena :=
    hr ▸ hread.arena
  unfold bindPatterns
  cases doc.root with
  | none => exact .of_nil rfl
  | some root =>
      exact reportsUnusable_bindRoot hdoc (pointsInto_collectIds hdoc o.sourceFolder r) o hgrows
        fun helement => (Arena.standsIn_of_element helement).mono hgrows

/-- A pattern that cannot be used has one report of its own, which tells why and is an error of
the document, unless a report was made earlier at the place of that one; then it has none. -/
theorem bindSource_unusable (source : String) (o : BindOptions) {p : Pattern α}
    (hp : p ∈ (bindSource source o : BoundDocument α).patterns) (hunusable : p.isError = true) :
    ∃ e report before after,
      (bindSource source o : BoundDocument α).document.arena.element? p.node = some e ∧
      e.unusable? = some report ∧ report.isError = true ∧
      (bindSource source o : BoundDocument α).diagnostics.items
        = before ++ p.diagnostics ++ after ∧
      p.diagnostics = if report.span ∈ before.map Diagnostic.span then [] else [report] := by
  have hdoc := Document.isWritten_ofSource source o.keepComments
  obtain ⟨e, report, before, he, hreport, herror, hbefore, hown⟩ :=
    reportsUnusable_bindPatterns o hdoc rfl p hp hunusable
  obtain ⟨after, hafter⟩ := hbefore.trans (Diagnostics.items_prefix_pushAll _ _)
  exact ⟨e, report, before, after, he, hreport, herror, hafter.symm, hown⟩

/-- A pattern without a name and a type, and the one report there is. -/
theorem bindSource_unusable_nameless :
    ∃ p ∈ (bindSource "<pattern/>" {} : BoundDocument Float).patterns, p.isError = true ∧
      ∃ e report before after,
        (bindSource "<pattern/>" {} : BoundDocument Float).document.arena.element? p.node
          = some e ∧
        e.unusable? = some report ∧ report.isError = true ∧
        (bindSource "<pattern/>" {} : BoundDocument Float).diagnostics.items
          = before ++ p.diagnostics ++ after ∧
        p.diagnostics = if report.span ∈ before.map Diagnostic.span then [] else [report] := by
  have hlength : 0 < (bindSource "<pattern/>" {} : BoundDocument Float).patterns.length := by
    decide +kernel
  have hunusable : ∀ p ∈ (bindSource "<pattern/>" {} : BoundDocument Float).patterns,
      p.isError = true := by
    decide +kernel
  have hmem := List.get_mem (bindSource "<pattern/>" {} : BoundDocument Float).patterns
    ⟨0, hlength⟩
  exact ⟨_, hmem, hunusable _ hmem, bindSource_unusable "<pattern/>" {} hmem (hunusable _ hmem)⟩

/-- A warning that a value is not quoted takes the place of the error that it names no kind of
pattern: the pattern cannot be used, and there is no error. -/
theorem not_hasErrors_unquoted :
    (bindSource "<pattern name=\"x\" type=foo/>" {} : BoundDocument Float).diagnostics.hasErrors
        = false ∧
      ∃ p ∈ (bindSource "<pattern name=\"x\" type=foo/>" {} : BoundDocument Float).patterns,
        p.isError = true ∧ p.diagnostics = [] := by
  decide +kernel

end PatternMarkup
