import Mathlib.Data.List.Nodup
import PatternMarkup.Proofs.Markup.PassedAttributes
import PatternMarkup.Proofs.Pattern.ReadingSteps
/-!
What is recorded of a document's figures is what its patterns hold. A number is taken when a
figure is entered and recorded when it is left, and no reading takes a number without giving the
figure back, whatever is refused, copied or passed over in between.
-/

namespace PatternMarkup

open Binder

variable {α : Type}

/-- What is to be recorded of a figure while the nodes are those of an arena. -/
def FigureHead.identification (a : Arena) (head : FigureHead α) : Identification :=
  ⟨head.id, head.node, a.source head.node⟩

/-- Whether reading takes one state to another and finds certain figures on the way: they have
the next numbers in their order, and exactly they are recorded. What was read stays read, and so
was what copies have from elsewhere. -/
structure Finds (r : DocumentReading) (heads : List (FigureHead α)) (r' : DocumentReading) :
    Prop where
  arena : r.arena.GrowsTo r'.arena
  reports : ∃ made, r'.diagnostics = r.diagnostics.pushAll made
  figures : r'.figures = r.figures + heads.length
  ids : heads.map (·.id) = List.range' r.figures heads.length
  nodes : ∀ head ∈ heads, head.node < r'.arena.size
  recorded : ∃ found, r'.identity.figures = r.identity.figures ++ found ∧
    found.Perm (heads.map (·.identification r'.arena))
  usage : r.usage.GrowsTo r'.usage
  passed : ∀ x, r'.arena.HasPassed x → r.arena.HasPassed x ∨ r'.usage.usesAttribute x = true

namespace Finds

variable {r r' r'' : DocumentReading} {heads more : List (FigureHead α)}

theorem nothing (harena : r.arena.GrowsTo r'.arena)
    (hreports : ∃ made, r'.diagnostics = r.diagnostics.pushAll made)
    (hfigures : r'.figures = r.figures) (hidentity : r'.identity = r.identity)
    (husage : r.usage.GrowsTo r'.usage)
    (hpassed : ∀ x, r'.arena.HasPassed x →
      r.arena.HasPassed x ∨ r'.usage.usesAttribute x = true) :
    Finds r ([] : List (FigureHead α)) r' :=
  ⟨harena, hreports, hfigures, rfl, fun _ h => absurd h List.not_mem_nil,
    ⟨[], by rw [hidentity, List.append_nil], .nil⟩, husage, hpassed⟩

theorem refl (r : DocumentReading) : Finds r ([] : List (FigureHead α)) r :=
  nothing (.refl _) ⟨[], rfl⟩ rfl rfl (.refl _) fun _ => .inl

theorem append (h : Finds r heads r') (h' : Finds r' more r'') : Finds r (heads ++ more) r'' := by
  obtain ⟨made, hmade⟩ := h.reports
  obtain ⟨made', hmade'⟩ := h'.reports
  obtain ⟨found, hfound, hperm⟩ := h.recorded
  obtain ⟨found', hfound', hperm'⟩ := h'.recorded
  have hstays : heads.map (·.identification r''.arena) = heads.map (·.identification r'.arena) :=
    List.map_congr_left fun head hhead => by
      rw [FigureHead.identification, h'.arena.source_eq (h.nodes head hhead)]
      rfl
  refine ⟨h.arena.trans h'.arena, ⟨made ++ made', ?_⟩, ?_, ?_, fun head hhead => ?_,
    ⟨found ++ found', ?_, ?_⟩, h.usage.trans h'.usage, fun x hx => ?_⟩
  · rw [hmade', hmade, Diagnostics.pushAll, Diagnostics.pushAll, Diagnostics.pushAll,
      List.foldl_append]
  · rw [h'.figures, h.figures, List.length_append, Nat.add_assoc]
  · rw [List.map_append, h.ids, h'.ids, h.figures, List.length_append]
    exact List.range'_append_1
  · rcases List.mem_append.1 hhead with hhead | hhead
    · exact Nat.lt_of_lt_of_le (h.nodes head hhead) h'.arena.size
    · exact h'.nodes head hhead
  · rw [hfound', hfound, List.append_assoc]
  · rw [List.map_append, hstays]
    exact hperm.append hperm'
  · rcases h'.passed x hx with hx | hx
    · exact (h.passed x hx).imp_right h'.usage.usesAttribute
    · exact .inr hx

end Finds

/-! ### Steps -/

/-- Reading without copies and figures finds nothing. -/
theorem Binder.Reads.finds {β : Type} {step : Binder β} (h : Reads step) (r : DocumentReading) :
    Finds r ([] : List (FigureHead α)) (step r).2 := by
  induction h generalizing r with
  | pure x => exact .refl r
  | look => exact .refl r
  | report d => exact .nothing (.refl _) ⟨[d], rfl⟩ rfl rfl (.refl _) fun _ => .inl
  | mark f hf => exact .nothing (.refl _) ⟨[], rfl⟩ rfl rfl (hf _) fun _ => .inl
  | areas f => exact .nothing (.refl _) ⟨[], rfl⟩ rfl rfl (.refl _) fun _ => .inl
  | bind _ _ ihstep ihnext => exact (ihstep r).append (ihnext _ _)

/-- Whether a step, in a state, finds the figures that its result holds. -/
def Binder.Accounts {β : Type} (step : Binder β) (heads : β → List (FigureHead α))
    (r : DocumentReading) : Prop :=
  Finds r (heads (step r).1) (step r).2

/-- The figures of what a tree stands for. -/
def Figure.headsOfAny (figure : Option (Figure α)) : List (FigureHead α) :=
  headsOfAll figure.toList

theorem Figure.headsOfAny_some (figure : Figure α) : headsOfAny (some figure) = figure.heads := by
  rw [headsOfAny, Option.toList_some, headsOfAll, headsOfAll, List.append_nil]

theorem Figure.headsOfAll_append (figures more : List (Figure α)) :
    headsOfAll (figures ++ more) = headsOfAll figures ++ headsOfAll more := by
  induction figures with
  | nil => rfl
  | cons figure figures ih => rw [List.cons_append, headsOfAll, ih, headsOfAll, List.append_assoc]

variable [Number α]

/-- Entering a figure takes the next number and nothing more. -/
theorem openFigure_finds (index : DocumentIndex) (tag : FigureTag) (tree : Tree) (e : Element)
    (place : Place α) (r : DocumentReading) :
    Finds { r with figures := r.figures + 1 } ([] : List (FigureHead α))
      (openFigure index tag tree e place r).2 := by
  -- The number is taken already, so what is left of the step only reads.
  have hrest : Reads (do
      let loop ← figureLoop e place.scope
      let vars ← figureVariables tree.children loop.2
      let kind ← figureKind index tag e tree.children vars.2
      let style ← figureStyle index e kind.2 place.style
      return ((⟨r.figures, tree.id, tree.content.span, kind.1, style, loop.1, vars.1⟩ :
        FigureHead α), (⟨kind.2, style.inherited⟩ : Place α))) :=
    (reads_figureLoop ..).bind fun _ => (reads_figureVariables ..).bind fun _ =>
      (reads_figureKind ..).bind fun _ => (reads_figureStyle ..).bind fun _ => .pure _
  exact ((reads_markNode tree).bind fun _ => hrest).finds _

omit [Number α] in
/-- Leaving a figure records it, after all that was found since it was entered. -/
theorem Finds.closeFigure {r r' : DocumentReading} {heads : List (FigureHead α)}
    (h : Finds { r with figures := r.figures + 1 } heads r') {head : FigureHead α} {tree : Tree}
    (hid : head.id = r.figures) (hnode : head.node = tree.id) (htree : tree.StandsIn r.arena) :
    Finds r (head :: heads) (closeFigure head tree r').2 := by
  obtain ⟨found, hfound, hperm⟩ := h.recorded
  have hlt : tree.id < r'.arena.size := Nat.lt_of_lt_of_le htree.id_lt h.arena.size
  have hhead : (⟨head.id, head.node, tree.content.source tree.id⟩ : Identification) =
      head.identification r'.arena := by
    rw [FigureHead.identification, hnode, (htree.mono h.arena).source]
  refine ⟨h.arena, h.reports, ?_, ?_, fun other hother => ?_,
    ⟨found ++ [head.identification r'.arena], ?_, ?_⟩, h.usage, h.passed⟩
  · rw [List.length_cons, Nat.add_comm heads.length, ← Nat.add_assoc]
    exact h.figures
  · rw [List.map_cons, h.ids, hid, List.length_cons, List.range'_succ]
  · rcases List.mem_cons.1 hother with rfl | hother
    · exact hnode ▸ hlt
    · exact h.nodes other hother
  · rw [← hhead, ← List.append_assoc, ← hfound]
    rfl
  · -- The figure comes before those in it, and is recorded after them.
    exact (List.perm_append_singleton _ _).trans (hperm.cons _)

theorem accounts_bindFigure {index : DocumentIndex} {tag : FigureTag} {tree : Tree} {e : Element}
    {place : Place α} {inside : Place α → Binder (List (Figure α))} {r : DocumentReading}
    (htree : tree.StandsIn r.arena)
    (hinside : ∀ inner r', r.arena.GrowsTo r'.arena →
      (inside inner).Accounts Figure.headsOfAll r') :
    (bindFigure index tag tree e place inside).Accounts Figure.heads r := by
  have hopen := openFigure_finds index tag tree e place r
  by_cases htext : tag = .text
  · subst htext
    exact (hopen.append (.refl _)).closeFigure rfl rfl htree
  · simp only [Accounts, bindFigure, if_neg htext]
    exact (hopen.append (hinside _ _ hopen.arena)).closeFigure rfl rfl htree

/-! ### Uses -/

/-- Whether all references lead to nodes of an arena. -/
def DocumentIndex.PointsInto (index : DocumentIndex) (a : Arena) : Prop :=
  ∀ target ∈ index.ids.map (·.2), target < a.size

omit [Number α] in
theorem gives_reference? (index : DocumentIndex) (a : Attribute) :
    Gives (reference? index a) fun found => ∀ target ∈ found, target ∈ index.ids.map (·.2) := by
  unfold reference?
  split
  · exact .of_next fun _ => .pure nofun
  · split
    · next hfind =>
        refine .pure fun target htarget => ?_
        obtain rfl := Option.some.inj htarget
        exact List.mem_map_of_mem (List.mem_of_find?_eq_some hfind)
    · exact .of_next fun _ => .pure nofun

/-- What is used is an element of the source that has an id. -/
theorem gives_useTarget? (index : DocumentIndex) (tree : Tree) (e : Element) :
    Gives (useTarget? index tree e) fun found =>
      ∀ use ∈ found, use.2 ∈ index.ids.map (·.2) := by
  unfold useTarget?
  refine .of_next fun _ => .of_next fun href => ?_
  cases href with
  | none => exact .pure nofun
  | some href =>
      refine (gives_reference? index href).bind fun found hfound => .pure fun use huse => ?_
      obtain ⟨target, htarget, rfl⟩ := Option.map_eq_some_iff.1 huse
      exact hfound target htarget

section

variable {base : Arena} {r : DocumentReading}

/-- Attributes that are marked one after another. -/
theorem usesAttribute_markAll (attributes : List Attribute) (r : DocumentReading) :
    ∀ a ∈ attributes,
      (attributes.forM (fun a => mark (·.markAttribute a)) r).2.usage.usesAttribute a = true := by
  induction attributes generalizing r with
  | nil => exact List.forall_mem_nil _
  | cons first rest ih =>
      refine List.forall_mem_cons.mpr ⟨?_, ih _⟩
      have hrest : Reads (rest.forM fun a => mark (·.markAttribute a)) :=
        reads_forM reads_markAttribute
      exact (hrest.finds (α := Unit) _).usage.usesAttribute
        (r.usage.usesAttribute_markAttribute first)

omit [Number α] in
/-- Adding a copy finds no figure, and the copy stands behind all nodes there were. -/
theorem finds_copyTarget (hbase : base.IsWritten) (hgrows : base.GrowsTo r.arena)
    {target : NodeId} (htarget : target < base.size) {overrides : List Attribute}
    (hread : ∀ a ∈ overrides, r.usage.usesAttribute a = true) :
    Finds r ([] : List (FigureHead α)) (copyTarget target overrides r).2 ∧
      (copyTarget target overrides r).1.StandsIn (copyTarget target overrides r).2.arena := by
  have hsame : r.arena.source target = target := by
    rw [hgrows.source_eq htarget, hbase.source]
  have hsource : r.arena.source target < r.arena.size := by
    rw [hsame]
    exact Nat.lt_of_lt_of_le htarget hgrows.size
  have hpassed : ∀ x, (copyTarget target overrides r).2.arena.HasPassed x →
      r.arena.HasPassed x ∨ r.usage.usesAttribute x = true := by
    intro x hx
    have hlt : r.arena.source target < base.size := by rwa [hsame]
    exact (Arena.HasPassed.of_copySubtree hbase hgrows hlt hx).imp_right (hread x)
  exact ⟨.nothing (Arena.growsTo_copySubtree hsource overrides) ⟨[], rfl⟩ rfl rfl (.refl _) hpassed,
    Arena.standsIn_tree (Arena.size_lt_copySubtree ..)⟩

omit [Number α] in
theorem finds_useCopy? (hbase : base.IsWritten) (hgrows : base.GrowsTo r.arena)
    {target : NodeId} (htarget : target < base.size) (e : Element) (href : Attribute) :
    Finds r ([] : List (FigureHead α)) (useCopy? e href target r).2 ∧
      ∀ copy ∈ (useCopy? e href target r).1, copy.StandsIn (useCopy? e href target r).2.arena := by
  rw [useCopy?, bind_apply, get_apply]
  simp only
  split
  · have hmarks : Reads ((passedAttributes e).forM fun a => mark (·.markAttribute a)) :=
      reads_forM reads_markAttribute
    have hmarked := hmarks.finds (α := α) r
    obtain ⟨hcopy, hstands⟩ := finds_copyTarget (α := α) hbase (hgrows.trans hmarked.arena)
      htarget (usesAttribute_markAll (passedAttributes e) r)
    refine ⟨hmarked.append hcopy, fun copy hcopy => ?_⟩
    obtain rfl := Option.some.inj hcopy
    exact hstands
  · exact ⟨((reads_error ..).bind fun _ => .pure none).finds r, nofun⟩

end

/-! ### Trees -/

/-- Whether a way to read trees finds the figures it gives, in any arena that holds a document
and copies of its nodes. -/
def TreeBinder.FindsAll (base : Arena) (bindTree : TreeBinder α) : Prop :=
  ∀ tree place r, base.GrowsTo r.arena → tree.StandsIn r.arena →
    (bindTree tree place).Accounts Figure.headsOfAny r

section

variable {base : Arena} {index : DocumentIndex} {expand : NodeId → Option (TreeBinder α)}

omit [Number α] in
theorem accounts_bindReference (hbase : base.IsWritten)
    (hexpand : ∀ target bindCopy, expand target = some bindCopy → bindCopy.FindsAll base)
    (e : Element) (href : Attribute) {target : NodeId} (htarget : target < base.size)
    (place : Place α) {r : DocumentReading} (hgrows : base.GrowsTo r.arena) :
    (bindReference expand e href target place).Accounts Figure.headsOfAny r := by
  unfold bindReference
  split
  · exact ((reads_refuseUse href).bind fun _ => .pure none).finds r
  · next bindCopy hexpanded =>
      obtain ⟨hcopy, hstands⟩ := finds_useCopy? (α := α) hbase hgrows htarget e href
      rw [Accounts, bind_apply]
      generalize useCopy? e href target r = copied at hcopy hstands ⊢
      obtain ⟨_ | copy, r'⟩ := copied
      · exact hcopy
      · exact hcopy.append (hexpand target bindCopy hexpanded copy place r'
          (hgrows.trans hcopy.arena) (hstands copy rfl))

omit [Number α] in
theorem accounts_bindUse (hbase : base.IsWritten) (hindex : index.PointsInto base)
    (hexpand : ∀ target bindCopy, expand target = some bindCopy → bindCopy.FindsAll base)
    (tree : Tree) (e : Element) (place : Place α) {r : DocumentReading}
    (hgrows : base.GrowsTo r.arena) :
    (bindUse index expand tree e place).Accounts Figure.headsOfAny r := by
  have hread := (reads_useTarget? index tree e).finds (α := α) r
  have htarget := gives_useTarget? index tree e r
  rw [Accounts, bindUse, bind_apply]
  generalize useTarget? index tree e r = found at hread htarget ⊢
  obtain ⟨_ | ⟨href, target⟩, r'⟩ := found
  · exact hread
  · exact hread.append (accounts_bindReference hbase hexpand e href
      (hindex target (htarget _ rfl)) place (hgrows.trans hread.arena))

mutual

theorem accounts_bindTree (hbase : base.IsWritten) (hindex : index.PointsInto base)
    (hexpand : ∀ target bindCopy, expand target = some bindCopy → bindCopy.FindsAll base) :
    ∀ tree, ∀ (place : Place α) (r : DocumentReading), base.GrowsTo r.arena →
      tree.StandsIn r.arena →
        (bindTree index expand tree place).Accounts Figure.headsOfAny r
  | .node id content children, place, r, hgrows, hstands => by
      unfold bindTree
      simp only
      split
      · exact .refl r
      · next e tag _ =>
          have hfigure : (bindFigure index tag (.node id content children) e place fun inner =>
              bindTrees index expand children inner).Accounts Figure.heads r :=
            accounts_bindFigure hstands fun inner r' hr' =>
              accounts_bindTrees hbase hindex hexpand children inner r' (hgrows.trans hr')
                (Tree.AllStandIn.mono hr' hstands.2.2)
          simp only [Accounts, bind_apply, pure_apply, Figure.headsOfAny_some]
          exact hfigure
      · exact accounts_bindUse hbase hindex hexpand _ _ place hgrows
      · exact ((reads_passOver ..).bind fun _ => .pure _).finds r

theorem accounts_bindTrees (hbase : base.IsWritten) (hindex : index.PointsInto base)
    (hexpand : ∀ target bindCopy, expand target = some bindCopy → bindCopy.FindsAll base) :
    ∀ trees, ∀ (place : Place α) (r : DocumentReading), base.GrowsTo r.arena →
      Tree.AllStandIn r.arena trees →
        (bindTrees index expand trees place).Accounts Figure.headsOfAll r
  | [], place, r, _, _ => .refl r
  | tree :: rest, place, r, hgrows, hstand => by
      have hfirst := accounts_bindTree hbase hindex hexpand tree place r hgrows hstand.1
      have hrest := accounts_bindTrees hbase hindex hexpand rest place _
        (hgrows.trans hfirst.arena) (hstand.2.mono hfirst.arena)
      simp only [Accounts, bindTrees, bind_apply, pure_apply, Figure.headsOfAll_append]
      exact hfirst.append hrest

end

/-- Copies in copies find all their figures; the induction is on the targets that are left. -/
theorem finds_expandTarget (hbase : base.IsWritten) (hindex : index.PointsInto base)
    (expanding : List NodeId) (target : NodeId) (bindCopy : TreeBinder α)
    (h : expandTarget index expanding target = some bindCopy) : bindCopy.FindsAll base := by
  rw [expandTarget] at h
  split at h
  · next hfree =>
      obtain rfl := Option.some.inj h
      have := index.length_freeTargets_lt hfree
      exact accounts_bindTree hbase hindex fun inner bindInner hinner =>
        finds_expandTarget hbase hindex (target :: expanding) inner bindInner hinner
  · cases h
termination_by (index.freeTargets expanding).length

theorem accounts_bindOutermost (hbase : base.IsWritten) (hindex : index.PointsInto base)
    (tag : FigureTag) {tree : Tree} (e : Element) (place : Place α) {r : DocumentReading}
    (hgrows : base.GrowsTo r.arena) (hstands : tree.StandsIn r.arena) :
    (bindOutermost index tag tree e place).Accounts Figure.heads r := by
  obtain ⟨id, content, children⟩ := tree
  exact accounts_bindFigure hstands fun inner r' hr' =>
    accounts_bindTrees hbase hindex (finds_expandTarget hbase hindex []) children inner r'
      (hgrows.trans hr') (Tree.AllStandIn.mono hr' hstands.2.2)

/-! ### Patterns -/

theorem gives_patternParts (tree : Tree) (e : Element) (kind : PatternKind) :
    Gives (patternParts (α := α) tree e kind) fun parts =>
      ∀ body, (parts.1 body).body = body :=
  .of_next fun _ => .of_next fun _ => .of_next fun _ => .of_next fun _ => .of_next fun _ =>
    .of_next fun _ => .of_next fun _ => .of_next fun _ => .pure fun _ => rfl

theorem accounts_patternContent (hbase : base.IsWritten) (hindex : index.PointsInto base)
    {tree : Tree} (e : Element) (kind : PatternKind) {r : DocumentReading}
    (hgrows : base.GrowsTo r.arena) (hstands : tree.StandsIn r.arena) :
    (patternContent index tree e kind).Accounts (fun content : PatternContent α =>
      content.body.heads) r := by
  have hparts := (reads_patternParts (α := α) tree e kind).finds (α := α) r
  have hmade := gives_patternParts (α := α) tree e kind r
  rcases hrun : patternParts (α := α) tree e kind r with ⟨⟨content, place⟩, r'⟩
  rw [hrun] at hparts hmade
  have hbodies : ∀ body, (content body).body = body := hmade
  have hbody := accounts_bindOutermost hbase hindex .div e place
    (hgrows.trans hparts.arena) (hstands.mono hparts.arena)
  have hroles := (reads_checkRoles kind e).finds (α := α)
    (bindOutermost index .div tree e place r').2
  simp only [Accounts, patternContent, bind_apply, pure_apply, hrun, hbodies]
  simpa only [List.nil_append, List.append_nil] using (hparts.append hbody).append hroles

/-- The figures of a pattern; one that cannot be used has none. -/
def Pattern.heads (p : Pattern α) : List (FigureHead α) :=
  (p.content.map (·.body.heads)).getD []

theorem accounts_bindPattern (hbase : base.IsWritten) (hindex : index.PointsInto base)
    (library : String) {tree : Tree} (e : Element) {r : DocumentReading}
    (hgrows : base.GrowsTo r.arena) (hstands : tree.StandsIn r.arena) :
    (bindPattern index library tree e).Accounts (Pattern.heads (α := α)) r := by
  have hhead := (reads_patternHead tree e).finds (α := α) r
  rcases hrun : patternHead tree e r with ⟨⟨name, kind⟩, r'⟩
  rw [hrun] at hhead
  have hskipped : Finds r ([] : List (FigureHead α)) (markTree tree r').2 :=
    hhead.append ((reads_markTree tree).finds r')
  rcases name with _ | name
  · simp only [Accounts, bindPattern, bind_apply, get_apply, hrun]
    exact hskipped
  · rcases kind with _ | kind
    · simp only [Accounts, bindPattern, bind_apply, get_apply, hrun]
      exact hskipped
    · simp only [Accounts, bindPattern, bind_apply, get_apply, hrun]
      exact hhead.append (accounts_patternContent hbase hindex e kind
        (hgrows.trans hhead.arena) (hstands.mono hhead.arena))

theorem accounts_bindEntries (hbase : base.IsWritten) (hindex : index.PointsInto base)
    (library : String) (names : List String) (entries : List (Tree × Element × Tag))
    {r : DocumentReading} (hgrows : base.GrowsTo r.arena)
    (hstand : ∀ entry ∈ entries, entry.1.StandsIn r.arena) :
    (bindEntries index library names entries).Accounts
      (fun patterns : List (Pattern α) => patterns.flatMap Pattern.heads) r := by
  induction entries generalizing names r with
  | nil => exact .refl r
  | cons entry entries ih =>
      obtain ⟨tree, e, tag⟩ := entry
      have hrest : ∀ {step : Binder Unit}, Reads step → (step >>= fun _ =>
          bindEntries index library names entries).Accounts
            (fun patterns : List (Pattern α) => patterns.flatMap Pattern.heads) r :=
        fun {step} hstep =>
          have hread := hstep.finds (α := α) r
          hread.append (ih names (hgrows.trans hread.arena) fun entry hentry =>
            (hstand entry (List.mem_cons_of_mem _ hentry)).mono hread.arena)
      unfold bindEntries
      split
      · have hstands : tree.StandsIn r.arena := hstand _ List.mem_cons_self
        have hpattern := accounts_bindPattern (α := α) hbase hindex library e hgrows hstands
        rw [Accounts] at hpattern ⊢
        rw [bind_apply]
        generalize bindPattern (α := α) index library tree e r = found at hpattern ⊢
        obtain ⟨p, r'⟩ := found
        have hsofar := hpattern.append ((reads_reportDuplicate names e p).finds r')
        have hmore := ih (if p.isError then names else p.name :: names)
          (hgrows.trans hsofar.arena) fun entry hentry =>
            (hstand entry (List.mem_cons_of_mem _ hentry)).mono hsofar.arena
        rw [List.append_nil] at hsofar
        exact hsofar.append hmore
      · exact hrest (reads_markNode tree)
      · exact hrest (reads_markTree tree)
      · exact hrest (reads_markTree tree)
      · exact hrest (.pure ())
      · exact hrest (reads_reject tree _)
      · exact hrest (reads_reject tree _)

theorem Tree.standsIn_of_mem_elements {a : Arena} {trees : List Tree}
    (h : Tree.AllStandIn a trees) {entry : Tree × Element × Tag}
    (hentry : entry ∈ Tree.elements trees) : entry.1.StandsIn a := by
  obtain ⟨tree, htree, hfound⟩ := List.mem_filterMap.1 hentry
  obtain ⟨found, -, rfl⟩ := Option.map_eq_some_iff.1 hfound
  exact allStandIn_iff.1 h tree htree

theorem Tree.StandsIn.children {a : Arena} {tree : Tree} (h : tree.StandsIn a) :
    Tree.AllStandIn a tree.children := by
  obtain ⟨id, content, children⟩ := tree
  exact h.2.2

theorem accounts_bindRoot (hbase : base.IsWritten) (hindex : index.PointsInto base)
    (o : BindOptions) {tree : Tree} {r : DocumentReading}
    (hgrows : base.GrowsTo r.arena) (hstands : tree.element?.isSome → tree.StandsIn r.arena) :
    (bindRoot index o tree).Accounts
      (fun patterns : List (Pattern α) => patterns.flatMap Pattern.heads) r := by
  unfold bindRoot
  split
  · next e hfound =>
      have hstands := hstands (by rw [hfound]; rfl)
      have hopen := ((reads_markNode tree).bind fun _ => reads_bindLibraryName o e).finds (α := α) r
      exact hopen.append (accounts_bindEntries hbase hindex _ [] _ (hgrows.trans hopen.arena)
        fun entry hentry =>
          Tree.standsIn_of_mem_elements (hstands.mono hopen.arena).children hentry)
  · next e hfound =>
      have hstands := hstands (by rw [hfound]; rfl)
      have hpattern := accounts_bindPattern (α := α) hbase hindex o.libraryName e hgrows hstands
      simp only [Accounts, bind_apply, pure_apply, List.flatMap_singleton]
      exact hpattern
  · exact ((reads_reject ..).bind fun _ => .pure ([] : List (Pattern α))).finds r

end

/-! ### Documents -/

theorem gives_collectIds {limit : NodeId} (ids : List (String × NodeId))
    (attributes : List Attribute) (hids : ∀ target ∈ ids.map (·.2), target < limit)
    (hattributes : ∀ a ∈ attributes, a.owner < limit) :
    Gives (collectIds ids attributes) fun ids => ∀ target ∈ ids.map (·.2), target < limit := by
  induction attributes generalizing ids with
  | nil => exact .pure hids
  | cons a rest ih =>
      have hrest : ∀ a ∈ rest, a.owner < limit := fun a ha =>
        hattributes a (List.mem_cons_of_mem _ ha)
      unfold collectIds
      refine .of_next fun _ => ?_
      simp only
      split
      · exact .of_next fun _ => ih ids hids hrest
      · refine ih _ (fun target htarget => ?_) hrest
        rw [List.map_append, List.mem_append] at htarget
        rcases htarget with htarget | htarget
        · exact hids target htarget
        · obtain rfl := List.mem_singleton.1 htarget
          exact hattributes a List.mem_cons_self

theorem Arena.IsWritten.owner_lt {a : Arena} (h : a.IsWritten) {attr : Attribute}
    (hattr : attr ∈ idAttributes a) : attr.owner < a.size := by
  obtain ⟨n, hn, hfound⟩ := List.mem_filterMap.1 hattr
  obtain ⟨e, he, hid⟩ := Option.bind_eq_some_iff.1 hfound
  obtain ⟨i, hi, rfl⟩ := List.getElem_of_mem hn
  have hlt : i < a.size := by simpa [Arena.size] using hi
  have hnode : a.node i = a.nodes.toList[i] := by
    rw [Arena.node, Array.getD_eq_getD_getElem?, Array.getElem?_eq_getElem hlt]
    rfl
  rw [(h i).owner e (hnode ▸ he) attr (List.mem_of_find?_eq_some hid)]
  exact hlt

/-- The ids of a document refer to its own nodes. -/
theorem pointsInto_collectIds {a : Arena} (h : a.IsWritten) (folder : Option FilePath)
    (r : DocumentReading) :
    DocumentIndex.PointsInto ⟨(collectIds [] (idAttributes a) r).1, folder⟩ a :=
  gives_collectIds [] (idAttributes a) nofun (fun _ hattr => h.owner_lt hattr) r

theorem Arena.standsIn_of_element {a : Arena} {id : NodeId}
    (h : (a.tree id).element?.isSome) : (a.tree id).StandsIn a := by
  refine standsIn_tree (Nat.lt_of_not_le fun hid => ?_)
  rw [tree_eq, node_of_size_le _ hid] at h
  cases h

theorem accounts_bindPatterns (o : BindOptions) {doc : Document} (hdoc : doc.arena.IsWritten)
    {r : DocumentReading} (hr : r.arena = doc.arena) :
    (bindPatterns o doc).Accounts
      (fun patterns : List (Pattern α) => patterns.flatMap Pattern.heads) r := by
  have hread := (reads_collectIds [] (idAttributes doc.arena)).finds (α := α) r
  have hindex := pointsInto_collectIds hdoc o.sourceFolder r
  have hgrows : doc.arena.GrowsTo (collectIds [] (idAttributes doc.arena) r).2.arena :=
    hr ▸ hread.arena
  unfold bindPatterns
  rw [Accounts, bind_apply]
  cases doc.root with
  | none => exact hread.append (((reads_error ..).bind fun _ => .pure []).finds _)
  | some root =>
      exact hread.append (accounts_bindRoot hdoc hindex o hgrows fun helement =>
        (Arena.standsIn_of_element helement).mono hgrows)

/-- Binding a document adds copies to its tree and reports to its reports, and finds the figures of
its patterns. -/
theorem Document.finds_bind (doc : Document) (hdoc : doc.arena.IsWritten) (o : BindOptions) :
    ∃ r : DocumentReading, Finds { arena := doc.arena, diagnostics := doc.diagnostics }
        ((doc.bind o : BoundDocument α).patterns.flatMap Pattern.heads) r ∧
      (doc.bind o : BoundDocument α).identity = r.identity ∧
      (doc.bind o : BoundDocument α).document.arena = r.arena ∧
      ∃ unused, (doc.bind o : BoundDocument α).diagnostics = r.diagnostics.pushAll unused :=
  ⟨_, accounts_bindPatterns o hdoc rfl, rfl, rfl, _, rfl⟩

/-! ### Lookups -/

namespace IdentityMap

variable {m : IdentityMap}

theorem find?_of_mem (h : (m.figures.map (·.figure)).Nodup) {i : Identification}
    (hi : i ∈ m.figures) : m.figures.find? (·.figure == i.figure) = some i := by
  cases hfound : m.figures.find? (·.figure == i.figure) with
  | none =>
      have hne := List.find?_eq_none.1 hfound i hi
      exact absurd (beq_self_eq_true _) hne
  | some j =>
      have heq : j.figure = i.figure := by simpa using List.find?_some hfound
      rw [List.inj_on_of_nodup_map h (List.mem_of_find?_eq_some hfound) hi heq]

theorem nodup_figuresOf (h : (m.figures.map (·.figure)).Nodup) (node : NodeId) :
    (m.figuresOf node).Nodup :=
  (List.filter_sublist.map _).nodup h

theorem mem_figuresOf {node : NodeId} {id : FigureId} :
    id ∈ m.figuresOf node ↔
      ∃ i ∈ m.figures, i.figure = id ∧ (i.node = node ∨ i.source = node) := by
  simp only [figuresOf, List.mem_map, List.mem_filter, Bool.or_eq_true, beq_iff_eq, and_assoc]
  exact exists_congr fun i => and_congr_right fun _ => and_comm

end IdentityMap

/-- The figures recorded of a document are those of its patterns: numbered in the order in which
a walk comes by them, each found with its node and the node of the source behind it, and listed
once for either of these. -/
theorem bind_identity (source : String) (keepComments : Bool) (o : BindOptions) :
    let d : BoundDocument α := (Document.ofSource source keepComments).bind o
    let heads := d.patterns.flatMap Pattern.heads
    let arena := d.document.arena
    heads.map (·.id) = List.range d.identity.size ∧
    (d.identity.figures.map (·.figure)).Perm (heads.map (·.id)) ∧
    (∀ head ∈ heads,
      d.identity.nodeOf? head.id = some head.node ∧
      d.identity.sourceOf? head.id = some (arena.source head.node) ∧
      arena.source head.node < arena.size ∧
      (arena.node (arena.source head.node)).origin = none) ∧
    ∀ node, (d.identity.figuresOf node).Nodup ∧
      ∀ id, id ∈ d.identity.figuresOf node ↔
        ∃ head ∈ heads, head.id = id ∧ (head.node = node ∨ arena.source head.node = node) := by
  intro d heads arena
  have hdoc := Document.isWritten_ofSource source keepComments
  obtain ⟨r, hfinds, hidentity, harena, -⟩ :=
    (Document.ofSource source keepComments).finds_bind (α := α) hdoc o
  change d.identity = r.identity at hidentity
  change arena = r.arena at harena
  obtain ⟨found, hfound, hperm⟩ := hfinds.recorded
  have hfigures : d.identity.figures = found := by
    rw [hidentity, hfound]
    exact List.nil_append _
  rw [← harena, ← hfigures] at hperm
  have hids : heads.map (·.id) = List.range d.identity.size := by
    rw [List.range_eq_range', IdentityMap.size, hperm.length_eq, List.length_map]
    exact hfinds.ids
  have hnumbers : (d.identity.figures.map (·.figure)).Perm (heads.map (·.id)) := by
    have hmapped := hperm.map (·.figure)
    rw [List.map_map] at hmapped
    exact hmapped
  have hnodup : (d.identity.figures.map (·.figure)).Nodup := by
    rw [hnumbers.nodup_iff, hids]
    exact List.nodup_range
  have hmem : ∀ i, i ∈ d.identity.figures ↔ ∃ head ∈ heads, head.identification arena = i :=
    fun i => hperm.mem_iff.trans List.mem_map
  refine ⟨hids, hnumbers, fun head hhead => ?_, fun node =>
    ⟨IdentityMap.nodup_figuresOf hnodup node, fun id => ?_⟩⟩
  · have hfind := IdentityMap.find?_of_mem hnodup ((hmem _).2 ⟨head, hhead, rfl⟩)
    have hnode : head.node < arena.size := harena ▸ hfinds.nodes head hhead
    have hgrows : (Document.ofSource source keepComments).arena.GrowsTo arena :=
      harena ▸ hfinds.arena
    refine ⟨?_, ?_, ?_, ?_⟩
    · exact congrArg (Option.map (·.node)) hfind
    · exact congrArg (Option.map (·.source)) hfind
    · exact Nat.lt_of_lt_of_le (hgrows.source_lt hdoc hnode) hgrows.size
    · exact hgrows.origin_source hdoc hnode
  · rw [IdentityMap.mem_figuresOf]
    constructor
    · rintro ⟨i, hi, hid, hnode⟩
      obtain ⟨head, hhead, rfl⟩ := (hmem i).1 hi
      exact ⟨head, hhead, hid, hnode⟩
    · rintro ⟨head, hhead, hid, hnode⟩
      exact ⟨_, (hmem _).2 ⟨head, hhead, rfl⟩, hid, hnode⟩

end PatternMarkup
