import PatternMarkup.Proofs.Pattern.BoundFigures
/-!
Copies in copies end. Here the targets being expanded are a list that is changed in place: a use
puts its target on it, reads a copy, and takes it off again, as deep as the calls go. Reading a
document in this way never needs more calls within calls than the document has ids, gives what
binding gives, and the list never holds a target twice.
-/

namespace PatternMarkup

open Binder

variable {α : Type}

/-! ### Figures with the uses above them -/

/-- A figure, those in it, and the targets that were entered between it and the figure around
it, the outermost first. -/
inductive ExpandedFigure (α : Type) where
  | mk (entered : List NodeId) (head : FigureHead α) (children : List (ExpandedFigure α))

namespace ExpandedFigure

mutual

/-- The figure itself. -/
def figure : ExpandedFigure α → Figure α
  | mk _ head children => .mk head (figures children)

/-- Several figures themselves. -/
def figures : List (ExpandedFigure α) → List (Figure α)
  | [] => []
  | f :: rest => f.figure :: figures rest

end

mutual

/-- The targets entered on each way from a figure to a figure that holds no others. -/
def paths : ExpandedFigure α → List (List NodeId)
  | mk entered _ [] => [entered]
  | mk entered _ (f :: rest) => (pathsOfAll (f :: rest)).map (entered ++ ·)

/-- The ways that start in one of several figures. -/
def pathsOfAll : List (ExpandedFigure α) → List (List NodeId)
  | [] => []
  | f :: rest => f.paths ++ pathsOfAll rest

end

/-- The figure with one more target entered outside all others. -/
def under (target : NodeId) : ExpandedFigure α → ExpandedFigure α
  | mk entered head children => mk (target :: entered) head children

theorem figures_append (fs more : List (ExpandedFigure α)) :
    figures (fs ++ more) = figures fs ++ figures more := by
  induction fs with
  | nil => rfl
  | cons f fs ih => rw [List.cons_append, figures, ih, figures, List.cons_append]

theorem mem_pathsOfAll {fs : List (ExpandedFigure α)} {path : List NodeId} :
    path ∈ pathsOfAll fs ↔ ∃ f ∈ fs, path ∈ f.paths := by
  induction fs with
  | nil => simp [pathsOfAll]
  | cons f fs ih => simp [pathsOfAll, ih]

theorem figure_under (target : NodeId) (f : ExpandedFigure α) :
    (f.under target).figure = f.figure := by
  obtain ⟨entered, head, children⟩ := f
  rfl

theorem paths_under (target : NodeId) (f : ExpandedFigure α) :
    (f.under target).paths = f.paths.map (target :: ·) := by
  obtain ⟨entered, head, _ | ⟨child, rest⟩⟩ := f
  · rfl
  · simp [under, paths]

end ExpandedFigure

/-! ### The list of targets -/

/-- A use that was met: its target, the targets being expanded before and after, and whether it
stands for a figure. -/
structure UseRecord where
  target : NodeId
  before : List NodeId
  after : List NodeId
  found : Bool

/-- What has been found, and what is being expanded. -/
structure ExpansionState where
  reading : DocumentReading
  /-- The targets being expanded, the innermost first. -/
  expanding : List NodeId := []
  /-- All values the list has had, the latest first. -/
  moments : List (List NodeId) := [[]]
  /-- The uses met whose reference leads to a target, the latest first. -/
  uses : List UseRecord := []

namespace ExpansionState

/-- The state with another list of targets. -/
def withExpanding (s : ExpansionState) (expanding : List NodeId) : ExpansionState :=
  { s with expanding, moments := expanding :: s.moments }

/-- The state with one more use. -/
def withUse (s : ExpansionState) (use : UseRecord) : ExpansionState :=
  { s with uses := use :: s.uses }

end ExpansionState

/-- A step of reading while targets are being expanded; it does not end if too many calls lie
within each other. -/
abbrev Expander (β : Type) := StateT ExpansionState Option β

namespace Expander

/-- A step that leaves the list of targets alone. -/
def step {β : Type} (b : Binder β) : Expander β := fun s =>
  some ((b s.reading).1, { s with reading := (b s.reading).2 })

/-- Puts a target on the list. -/
def enter (target : NodeId) : Expander Unit :=
  modify fun s => s.withExpanding (target :: s.expanding)

/-- Takes the innermost target off the list. -/
def leave : Expander Unit := modify fun s => s.withExpanding s.expanding.tail

/-- Records a use. -/
def recordUse (use : UseRecord) : Expander Unit := modify fun s => s.withUse use

end Expander

open Expander

section

variable [Number α]

/-- A way to read a tree at a place while targets are being expanded. -/
abbrev TreeExpander (α : Type) := Tree → Place α → Expander (Option (ExpandedFigure α))

/-- Reads a figure; `inside` reads those in it. -/
def expandFigure (index : DocumentIndex) (tag : FigureTag) (tree : Tree) (e : Element)
    (place : Place α) (inside : Place α → Expander (List (ExpandedFigure α))) :
    Expander (ExpandedFigure α) := do
  let (head, inner) ← step (openFigure index tag tree e place)
  let children ← if tag = .text then pure [] else inside inner
  step (closeFigure head tree)
  return .mk [] head children

/-- Reads a copy of a target with the target on the list, unless it is there already. -/
def expandReference (readCopy : TreeExpander α) (e : Element) (href : Attribute)
    (target : NodeId) (place : Place α) : Expander (Option (ExpandedFigure α)) := do
  if (← get).expanding.contains target then
    step (refuseUse href)
    return none
  else
    match ← step (useCopy? e href target) with
    | none => return none
    | some copy =>
        let source := (← get).reading.arena.source target
        enter source
        let found ← readCopy copy place
        leave
        return found.map (·.under source)

/-- Reads an element that uses another one; `readCopy` reads the copy. -/
def expandUse (index : DocumentIndex) (readCopy : TreeExpander α) (tree : Tree) (e : Element)
    (place : Place α) : Expander (Option (ExpandedFigure α)) := do
  match ← step (useTarget? index tree e) with
  | none => return none
  | some (href, target) =>
      let before := (← get).expanding
      let found ← expandReference readCopy e href target place
      recordUse ⟨target, before, (← get).expanding, found.isSome⟩
      return found

mutual

/-- Reads what an element stands for, if it is drawn; `readCopy` reads the copies. -/
def expandTree (index : DocumentIndex) (readCopy : TreeExpander α) : TreeExpander α
  | .node id content children, place => do
      let tree := Tree.node id content children
      match tree.element? with
      | none => return none
      | some (e, .figure tag) =>
          return some (← expandFigure index tag tree e place fun inner =>
            expandTrees index readCopy children inner)
      | some (e, .use) => expandUse index readCopy tree e place
      | some (e, tag) =>
          step (passOver tree e tag)
          return none

/-- Reads what several elements stand for. -/
def expandTrees (index : DocumentIndex) (readCopy : TreeExpander α) :
    List Tree → Place α → Expander (List (ExpandedFigure α))
  | [], _ => return []
  | tree :: rest, place => do
      let first ← expandTree index readCopy tree place
      return first.toList ++ (← expandTrees index readCopy rest place)

end

/-- Reads a copy with at most `depth` calls within each other. -/
def expandWithin (index : DocumentIndex) : Nat → TreeExpander α
  | 0 => fun _ _ _ => none
  | depth + 1 => expandTree index (expandWithin index depth)

/-- A pattern, and its body with the uses above each figure. -/
abbrev ExpandedPattern (α : Type) := Pattern α × Option (ExpandedFigure α)

/-- Reads what a usable pattern holds. -/
def expandContent (index : DocumentIndex) (depth : Nat) (tree : Tree) (e : Element)
    (kind : PatternKind) : Expander (PatternContent α × ExpandedFigure α) := do
  let (content, place) ← step (patternParts tree e kind)
  let body ← expandFigure index .div tree e place fun inner =>
    expandTrees index (expandWithin index depth) tree.children inner
  step (checkRoles kind e)
  return (content body.figure, body)

/-- Reads a pattern. -/
def expandPattern (index : DocumentIndex) (depth : Nat) (library : String) (tree : Tree)
    (e : Element) : Expander (ExpandedPattern α) := do
  let before := (← get).reading.diagnostics.size
  let (name, kind) ← step (patternHead tree e)
  let content : Option (PatternContent α × ExpandedFigure α) ← do
    match name, kind with
    | some _, some kind => pure (some (← expandContent index depth tree e kind))
    | _, _ =>
        step (markTree tree)
        pure none
  let reports := (← get).reading.diagnostics.items.drop before
  return (⟨name.getD Pattern.unnamed, library, content.map (·.1), tree.id, tree.content.span,
    reports⟩, content.map (·.2))

/-- Reads the elements of a library. -/
def expandEntries (index : DocumentIndex) (depth : Nat) (library : String)
    (names : List String) : List (Tree × Element × Tag) → Expander (List (ExpandedPattern α))
  | [] => return []
  | (tree, e, tag) :: rest => do
      match tag with
      | .pattern =>
          let p ← expandPattern index depth library tree e
          step (reportDuplicate names e p.1)
          let names := if p.1.isError then names else p.1.name :: names
          return p :: (← expandEntries index depth library names rest)
      | .defs => step (markNode tree)
      | .desc => step (markTree tree)
      | .title => step (markTree tree)
      | .paint _ => pure ()
      | .unknown name => step (rejectUnknown tree name)
      | _ => step (reject tree ("<" ++ e.name ++ "> is not allowed directly in a library"))
      expandEntries index depth library names rest

/-- Reads the outermost element of a document. -/
def expandRoot (index : DocumentIndex) (depth : Nat) (o : BindOptions) (tree : Tree) :
    Expander (List (ExpandedPattern α)) := do
  match tree.element? with
  | some (e, .library) =>
      step (markNode tree)
      let library ← step (bindLibraryName o e)
      expandEntries index depth library [] (Tree.elements tree.children)
  | some (e, .pattern) => return [← expandPattern index depth o.libraryName tree e]
  | found =>
      let name := (found.map (·.1.name)).getD ""
      step (reject tree
        ("expected <library> or <pattern> as the root, found <" ++ name ++ ">"))
      return []

/-- Reads the patterns of a document. -/
def expandPatterns (depth : Nat) (o : BindOptions) (doc : Document) :
    Expander (List (ExpandedPattern α)) := do
  let ids ← step (collectIds [] (idAttributes doc.arena))
  match doc.root with
  | some root => expandRoot ⟨ids, o.sourceFolder⟩ depth o (doc.arena.tree root)
  | none =>
      step (error Span.origin "document has no root element")
      return []

end

/-! ### Keeping in step with binding -/

/-- Whether targets are different nodes of a document. -/
def AreDistinct (base : Arena) (targets : List NodeId) : Prop :=
  targets.Nodup ∧ ∀ target ∈ targets, target < base.size

/-- Whether the list was restored after a use, and the use refused if its target was on it. -/
def UseRecord.IsKept (use : UseRecord) : Prop :=
  use.after = use.before ∧ (use.target ∈ use.before → use.found = false)

/-- What every part of reading does to the state: the list is as it was, and has only had values
without repetition. -/
structure Restores (base : Arena) (s s' : ExpansionState) : Prop where
  arena : s.reading.arena.GrowsTo s'.reading.arena
  expanding : s'.expanding = s.expanding
  moments : ∃ more, s'.moments = more ++ s.moments ∧ ∀ moment ∈ more, AreDistinct base moment
  uses : ∃ more, s'.uses = more ++ s.uses ∧ ∀ use ∈ more, use.IsKept

/-- Whether a step with the list ends, with a result and a state that are those of a step
without it. -/
def Follows {β γ : Type} (base : Arena) (machine : Expander β) (model : Binder γ)
    (related : β → γ → Prop) (s : ExpansionState) : Prop :=
  ∃ x s', machine s = some (x, s') ∧ related x (model s.reading).1 ∧
    s'.reading = (model s.reading).2 ∧ Restores base s s'

section

variable {β γ δ ε : Type} {base : Arena} {s s' s'' : ExpansionState}

theorem Restores.of_eq (harena : s.reading.arena.GrowsTo s'.reading.arena)
    (hexpanding : s'.expanding = s.expanding) (hmoments : s'.moments = s.moments)
    (huses : s'.uses = s.uses) : Restores base s s' :=
  ⟨harena, hexpanding, ⟨[], hmoments, nofun⟩, ⟨[], huses, nofun⟩⟩

theorem Restores.refl (base : Arena) (s : ExpansionState) : Restores base s s :=
  .of_eq (.refl _) rfl rfl rfl

theorem Restores.trans (h : Restores base s s') (h' : Restores base s' s'') :
    Restores base s s'' := by
  obtain ⟨moments, hmoments, hdistinct⟩ := h.moments
  obtain ⟨moments', hmoments', hdistinct'⟩ := h'.moments
  obtain ⟨uses, huses, hkept⟩ := h.uses
  obtain ⟨uses', huses', hkept'⟩ := h'.uses
  refine ⟨h.arena.trans h'.arena, h'.expanding.trans h.expanding,
    ⟨moments' ++ moments, ?_, ?_⟩, ⟨uses' ++ uses, ?_, ?_⟩⟩
  · rw [hmoments', hmoments, List.append_assoc]
  · intro moment hmoment
    exact (List.mem_append.1 hmoment).elim (hdistinct' moment) (hdistinct moment)
  · rw [huses', huses, List.append_assoc]
  · intro use huse
    exact (List.mem_append.1 huse).elim (hkept' use) (hkept use)

theorem Follows.pure {related : β → γ → Prop} {x : β} {y : γ} (h : related x y) :
    Follows base (Pure.pure x) (Pure.pure y) related s :=
  ⟨x, s, rfl, h, rfl, .refl base s⟩

theorem Follows.step {b : Binder β}
    (h : s.reading.arena.GrowsTo (b s.reading).2.arena) :
    Follows base (Expander.step b) b Eq s :=
  ⟨_, _, rfl, rfl, rfl, .of_eq h rfl rfl rfl⟩

theorem Follows.reads {b : Binder β} (h : Reads b) : Follows base (Expander.step b) b Eq s :=
  .step (h.finds (α := Unit) s.reading).arena

theorem Follows.bind {machine : Expander β} {model : Binder γ} {related : β → γ → Prop}
    {next : β → Expander δ} {next' : γ → Binder ε} {related' : δ → ε → Prop}
    (h : Follows base machine model related s)
    (hnext : ∀ x s', related x (model s.reading).1 → s'.reading = (model s.reading).2 →
      Restores base s s' → Follows base (next x) (next' (model s.reading).1) related' s') :
    Follows base (machine >>= next) (model >>= next') related' s := by
  obtain ⟨x, s', hrun, hrelated, hreading, hrestores⟩ := h
  obtain ⟨y, s'', hrun', hrelated', hreading', hrestores'⟩ := hnext x s' hrelated hreading hrestores
  rw [hreading] at hrelated' hreading'
  refine ⟨y, s'', ?_, hrelated', hreading', hrestores.trans hrestores'⟩
  exact (congrArg (·.bind fun (x, s') => next x s') hrun).trans hrun'

theorem Follows.look {machine : ExpansionState → Expander β} {model : Binder γ}
    {related : β → γ → Prop} (h : Follows base (machine s) model related s) :
    Follows base (get >>= machine) model related s := h

theorem Follows.lookBoth {machine : ExpansionState → Expander β}
    {model : DocumentReading → Binder γ} {related : β → γ → Prop}
    (h : Follows base (machine s) (model s.reading) related s) :
    Follows base (get >>= machine) (get >>= model) related s := h

/-- After a step that binding takes too, with the same result. -/
theorem Follows.after {b : Binder β} {next : β → Expander δ} {next' : β → Binder ε}
    {related : δ → ε → Prop} (h : Follows base (Expander.step b) b Eq s)
    (hnext : ∀ x s', x = (b s.reading).1 → s'.reading = (b s.reading).2 → Restores base s s' →
      Follows base (next x) (next' x) related s') :
    Follows base (Expander.step b >>= next) (b >>= next') related s :=
  h.bind fun x s' hx hreading hrestores => hx ▸ hnext x s' hx hreading hrestores

end

/-! ### Figures outside the list -/

/-- Whether no way in a figure enters a target twice, or one of the list. -/
def ExpandedFigure.IsFresh (expanding : List NodeId) (f : ExpandedFigure α) : Prop :=
  ∀ path ∈ f.paths, path.Nodup ∧ ∀ target ∈ path, target ∉ expanding

namespace ExpandedFigure

variable {expanding : List NodeId}

theorem isFresh_mk {head : FigureHead α} {children : List (ExpandedFigure α)}
    (h : ∀ f ∈ children, f.IsFresh expanding) : (mk [] head children).IsFresh expanding := by
  intro path hpath
  cases children with
  | nil =>
      obtain rfl := List.mem_singleton.1 hpath
      exact ⟨List.nodup_nil, nofun⟩
  | cons child rest =>
      have hmem : path ∈ pathsOfAll (child :: rest) := by simpa [paths] using hpath
      obtain ⟨f, hf, hpath⟩ := mem_pathsOfAll.1 hmem
      exact h f hf path hpath

theorem IsFresh.under {target : NodeId} {f : ExpandedFigure α}
    (h : f.IsFresh (target :: expanding)) (htarget : target ∉ expanding) :
    (f.under target).IsFresh expanding := by
  intro path hpath
  rw [paths_under] at hpath
  obtain ⟨inner, hinner, rfl⟩ := List.mem_map.1 hpath
  obtain ⟨hnodup, hfresh⟩ := h inner hinner
  refine ⟨List.nodup_cons.2 ⟨fun hmem => hfresh target hmem List.mem_cons_self, hnodup⟩, ?_⟩
  intro other hother
  rcases List.mem_cons.1 hother with rfl | hother
  · exact htarget
  · exact fun hmem => hfresh other hother (List.mem_cons_of_mem _ hmem)

end ExpandedFigure

/-- Whether a figure that was read with the list is one that was read without it. -/
def StandsFor (expanding : List NodeId) (f : Option (ExpandedFigure α)) (g : Option (Figure α)) :
    Prop :=
  f.map (·.figure) = g ∧ ∀ found ∈ f, found.IsFresh expanding

/-- Whether figures that were read with the list are those that were read without it. -/
def StandForAll (expanding : List NodeId) (fs : List (ExpandedFigure α))
    (gs : List (Figure α)) : Prop :=
  ExpandedFigure.figures fs = gs ∧ ∀ f ∈ fs, f.IsFresh expanding

theorem standsFor_none (expanding : List NodeId) :
    StandsFor expanding (none : Option (ExpandedFigure α)) none :=
  ⟨rfl, nofun⟩

theorem StandsFor.toList_append {expanding : List NodeId} {f : Option (ExpandedFigure α)}
    {g : Option (Figure α)} {fs : List (ExpandedFigure α)} {gs : List (Figure α)}
    (h : StandsFor expanding f g) (hall : StandForAll expanding fs gs) :
    StandForAll expanding (f.toList ++ fs) (g.toList ++ gs) := by
  obtain ⟨rfl, hfresh⟩ := h
  obtain ⟨rfl, hfreshAll⟩ := hall
  refine ⟨?_, fun other hother => ?_⟩
  · rw [ExpandedFigure.figures_append]
    cases f <;> rfl
  · rcases List.mem_append.1 hother with hother | hother
    · exact hfresh other (Option.mem_toList.1 hother)
    · exact hfreshAll other hother

/-! ### Reading with the list -/

variable [Number α]

/-- A state in which certain targets are being expanded, in an arena that holds a document and
copies of its nodes. -/
structure IsAt (base : Arena) (expanding : List NodeId) (s : ExpansionState) : Prop where
  grows : base.GrowsTo s.reading.arena
  distinct : AreDistinct base expanding
  expanding_eq : s.expanding = expanding

section

variable {base : Arena} {expanding : List NodeId} {s s' : ExpansionState}

omit [Number α] in
theorem IsAt.restored (h : IsAt base expanding s) (hrestores : Restores base s s') :
    IsAt base expanding s' :=
  ⟨h.grows.trans hrestores.arena, h.distinct, hrestores.expanding.trans h.expanding_eq⟩

omit [Number α] in
/-- A figure is left with those in it. -/
theorem follows_closeFigure (head : FigureHead α) (tree : Tree)
    {children : List (ExpandedFigure α)} {children' : List (Figure α)}
    (h : StandForAll expanding children children') :
    Follows base (do
        step (closeFigure head tree)
        return ExpandedFigure.mk [] head children)
      (do
        closeFigure head tree
        return Figure.mk head children')
      (fun f g => f.figure = g ∧ f.IsFresh expanding) s := by
  obtain ⟨rfl, hfresh⟩ := h
  have hrecord : Follows base (step (closeFigure head tree)) (closeFigure head tree) Eq s :=
    .step (.refl _)
  exact hrecord.after fun _ _ _ _ _ => .pure ⟨rfl, ExpandedFigure.isFresh_mk hfresh⟩

theorem follows_expandFigure {index : DocumentIndex} {tag : FigureTag} {tree : Tree} {e : Element}
    {place : Place α} {machine : Place α → Expander (List (ExpandedFigure α))}
    {model : Place α → Binder (List (Figure α))}
    (hinside : ∀ inner s', Restores base s s' →
      Follows base (machine inner) (model inner) (StandForAll expanding) s') :
    Follows base (expandFigure index tag tree e place machine)
      (bindFigure index tag tree e place model)
      (fun f g => f.figure = g ∧ f.IsFresh expanding) s := by
  have hopen : Follows base (step (openFigure index tag tree e place))
      (openFigure index tag tree e place) Eq s :=
    .step (openFigure_finds index tag tree e place s.reading).arena
  unfold expandFigure bindFigure
  refine hopen.after fun opened s' _ _ hrestores => ?_
  obtain ⟨head, inner⟩ := opened
  simp only
  split
  · exact follows_closeFigure head tree ⟨rfl, nofun⟩
  · exact (hinside inner s' hrestores).bind fun children _ hchildren _ _ =>
      follows_closeFigure head tree hchildren

/-- Whether copies of all targets that are not being expanded are read as binding reads them. -/
def ReadsCopies (base : Arena) (index : DocumentIndex) (expanding : List NodeId)
    (readCopy : TreeExpander α) : Prop :=
  ∀ target ∈ index.freeTargets expanding, ∀ copy place s,
    IsAt base (target :: expanding) s → copy.StandsIn s.reading.arena →
      Follows base (readCopy copy place)
        (bindTree index (expandTarget index (target :: expanding)) copy place)
        (StandsFor (target :: expanding)) s

variable {index : DocumentIndex} {readCopy : TreeExpander α}

omit [Number α] in
/-- A copy of a target is read with the target on the list, which is then taken off again. -/
theorem follows_copy {target : NodeId} {copy : Tree} {place : Place α}
    (hs : IsAt base expanding s) (htarget : target < base.size) (hfree : target ∉ expanding)
    {model : Binder (Option (Figure α))}
    (hcopy : ∀ s, IsAt base (target :: expanding) s → copy.StandsIn s.reading.arena →
      Follows base (readCopy copy place) model (StandsFor (target :: expanding)) s)
    (hstands : copy.StandsIn s.reading.arena) :
    Follows base (do
      enter target
      let found ← readCopy copy place
      leave
      return found.map (·.under target)) model (StandsFor expanding) s := by
  have hdistinct : AreDistinct base (target :: expanding) := by
    refine ⟨List.nodup_cons.2 ⟨hfree, hs.distinct.1⟩, fun other hother => ?_⟩
    rcases List.mem_cons.1 hother with rfl | hother
    · exact htarget
    · exact hs.distinct.2 other hother
  have hinside : IsAt base (target :: expanding) (s.withExpanding (target :: s.expanding)) :=
    ⟨hs.grows, hdistinct, congrArg _ hs.expanding_eq⟩
  obtain ⟨found, s', hrun, ⟨hfound, hfresh⟩, hreading, hrestores⟩ := hcopy _ hinside hstands
  obtain ⟨moments, hmoments, hmore⟩ := hrestores.moments
  have hback : s'.expanding.tail = expanding := by
    rw [hrestores.expanding]
    exact hs.expanding_eq
  refine ⟨found.map (·.under target), s'.withExpanding s'.expanding.tail, ?_, ⟨?_, ?_⟩,
    hreading, hrestores.arena, hback.trans hs.expanding_eq.symm,
    ⟨expanding :: (moments ++ [target :: expanding]), ?_, ?_⟩, hrestores.uses⟩
  · exact congrArg (·.bind fun (found, s') =>
      some (found.map (·.under target), s'.withExpanding s'.expanding.tail)) hrun
  · rw [Option.map_map]
    exact (congrArg (found.map ·) (funext fun f => f.figure_under target)).trans hfound
  · intro f hf
    obtain ⟨inner, hinner, rfl⟩ := Option.map_eq_some_iff.1 hf
    exact (hfresh inner hinner).under hfree
  · rw [ExpansionState.withExpanding, hback, hmoments, ← hs.expanding_eq]
    simp [ExpansionState.withExpanding]
  · -- The list has been what it is now, what it was inside the copy, and with the target on it.
    intro moment hmoment
    rcases List.mem_cons.1 hmoment with rfl | hmoment
    · exact hs.distinct
    · rcases List.mem_append.1 hmoment with hmoment | hmoment
      · exact hmore moment hmoment
      · exact List.mem_singleton.1 hmoment ▸ hdistinct

theorem expandTarget_of_mem (index : DocumentIndex) {target : NodeId} (h : target ∈ expanding) :
    (expandTarget index expanding target : Option (TreeBinder α)) = none := by
  rw [expandTarget, dif_neg]
  intro hfree
  have hnot := (List.mem_filter.1 hfree).2
  rw [List.contains_iff_mem.2 h] at hnot
  cases hnot

theorem mem_freeTargets {target : NodeId} (htarget : target ∈ index.ids.map (·.2))
    (h : target ∉ expanding) : target ∈ index.freeTargets expanding := by
  refine List.mem_filter.2 ⟨htarget, ?_⟩
  rw [Bool.not_eq_true', ← Bool.not_eq_true, List.contains_iff_mem]
  exact h

theorem follows_expandReference (hbase : base.IsWritten) (hindex : index.PointsInto base)
    (hread : ReadsCopies base index expanding readCopy) (hs : IsAt base expanding s)
    (e : Element) (href : Attribute) {target : NodeId} (htarget : target ∈ index.ids.map (·.2))
    (place : Place α) :
    Follows base (expandReference readCopy e href target place)
      (bindReference (expandTarget index expanding) e href target place)
      (StandsFor expanding) s := by
  unfold expandReference bindReference
  refine .look ?_
  rw [hs.expanding_eq]
  by_cases hmem : target ∈ expanding
  · rw [if_pos (List.contains_iff_mem.2 hmem), expandTarget_of_mem index hmem]
    exact (Follows.reads (reads_refuseUse href)).after fun _ _ _ _ _ => .pure (standsFor_none _)
  · have hfree := mem_freeTargets htarget hmem
    have hlt := hindex target htarget
    obtain ⟨hcopy, hstands⟩ := finds_useCopy? (α := α) hbase hs.grows hlt e href
    rw [if_neg (fun h => hmem (List.contains_iff_mem.1 h)), expandTarget, dif_pos hfree]
    refine (Follows.step hcopy.arena).after fun copied s' hcopied hreading hrestores => ?_
    cases copied with
    | none => exact .pure (standsFor_none _)
    | some copy =>
        have hs' := hs.restored hrestores
        -- Ids lead to nodes of the source, so what goes on the list is the target itself.
        have hsource : s'.reading.arena.source target = target := by
          rw [hs'.grows.source_eq hlt, hbase.source]
        simp only
        refine .look ?_
        rw [hsource]
        exact follows_copy hs' hlt hmem (hread target hfree copy place)
          (hreading ▸ hstands copy hcopied.symm)

theorem follows_expandUse (hbase : base.IsWritten) (hindex : index.PointsInto base)
    (hread : ReadsCopies base index expanding readCopy) (hs : IsAt base expanding s)
    (tree : Tree) (e : Element) (place : Place α) :
    Follows base (expandUse index readCopy tree e place)
      (bindUse index (expandTarget index expanding) tree e place) (StandsFor expanding) s := by
  have htargets := gives_useTarget? index tree e s.reading
  unfold expandUse bindUse
  refine (Follows.reads (reads_useTarget? index tree e)).after
    fun use s' huse _ hrestores => ?_
  rw [← huse] at htargets
  obtain _ | ⟨href, target⟩ := use
  · exact .pure (standsFor_none _)
  · have hs' := hs.restored hrestores
    obtain ⟨found, s'', hrun, hfound, hreading, hrestores'⟩ := follows_expandReference hbase hindex
      hread hs' e href (htargets _ rfl) place
    let use : UseRecord := ⟨target, s'.expanding, s''.expanding, found.isSome⟩
    have hkept : use.IsKept := by
      refine ⟨hrestores'.expanding, fun hmem => ?_⟩
      -- Binding has no way to read a copy of a target on the list, so nothing was found.
      change target ∈ s'.expanding at hmem
      rw [hs'.expanding_eq] at hmem
      have hnone : found.map (·.figure) = none := by
        rw [hfound.1, bindReference, expandTarget_of_mem index hmem]
        rfl
      exact congrArg Option.isSome (Option.map_eq_none_iff.1 hnone)
    obtain ⟨uses, huses, hmore⟩ := hrestores'.uses
    refine ⟨found, s''.withUse use, ?_, hfound, hreading, hrestores'.arena, hrestores'.expanding,
      hrestores'.moments, ⟨use :: uses, ?_, ?_⟩⟩
    · exact congrArg (·.bind fun (found, s'') => some (found,
        s''.withUse ⟨target, s'.expanding, s''.expanding, found.isSome⟩)) hrun
    · rw [ExpansionState.withUse, huses, List.cons_append]
    · intro use huse
      rcases List.mem_cons.1 huse with rfl | huse
      · exact hkept
      · exact hmore use huse

mutual

theorem follows_expandTree (hbase : base.IsWritten) (hindex : index.PointsInto base)
    (hread : ReadsCopies base index expanding readCopy) :
    ∀ tree (place : Place α) s, IsAt base expanding s → tree.StandsIn s.reading.arena →
      Follows base (expandTree index readCopy tree place)
        (bindTree index (expandTarget index expanding) tree place) (StandsFor expanding) s
  | .node id content children, place, s, hs, hstands => by
      unfold expandTree bindTree
      simp only
      rcases (Tree.node id content children).element? with _ | ⟨e, tag⟩
      · exact .pure (standsFor_none _)
      · have hpassed : Follows base (do
            step (passOver (.node id content children) e tag)
            return none)
            (do
              passOver (.node id content children) e tag
              return none) (StandsFor (α := α) expanding) s :=
          (Follows.reads (reads_passOver ..)).after fun _ _ _ _ _ => .pure (standsFor_none _)
        cases tag with
        | figure tag =>
            refine (follows_expandFigure fun inner s' hrestores =>
              follows_expandTrees hbase hindex hread children inner s' (hs.restored hrestores)
                (hstands.2.2.mono hrestores.arena)).bind fun figure s' hfound _ _ => ?_
            refine .pure ⟨congrArg some hfound.1, ?_⟩
            rintro f ⟨⟩
            exact hfound.2
        | use => exact follows_expandUse hbase hindex hread hs _ e place
        | _ => exact hpassed

theorem follows_expandTrees (hbase : base.IsWritten) (hindex : index.PointsInto base)
    (hread : ReadsCopies base index expanding readCopy) :
    ∀ trees (place : Place α) s, IsAt base expanding s →
      Tree.AllStandIn s.reading.arena trees →
        Follows base (expandTrees index readCopy trees place)
          (bindTrees index (expandTarget index expanding) trees place) (StandForAll expanding) s
  | [], _, _, _, _ => .pure ⟨rfl, nofun⟩
  | tree :: rest, place, s, hs, hstand => by
      unfold expandTrees bindTrees
      refine (follows_expandTree hbase hindex hread tree place s hs hstand.1).bind
        fun first s' hfirst _ hrestores => ?_
      refine (follows_expandTrees hbase hindex hread rest place s' (hs.restored hrestores)
        (hstand.2.mono hrestores.arena)).bind fun more _ hmore _ _ => ?_
      exact .pure (hfirst.toList_append hmore)

end

/-- As many calls within each other as targets are left are enough. -/
theorem readsCopies_expandWithin (hbase : base.IsWritten) (hindex : index.PointsInto base)
    {depth : Nat} {expanding : List NodeId}
    (hdepth : (index.freeTargets expanding).length ≤ depth) :
    ReadsCopies base index expanding (expandWithin (α := α) index depth) := by
  -- A target that is put on the list is one target less that is left.
  induction depth generalizing expanding with
  | zero =>
      intro target hfree
      rw [List.length_eq_zero_iff.1 (Nat.le_zero.1 hdepth)] at hfree
      cases hfree
  | succ depth ih =>
      intro target hfree copy place s hs hstands
      have hfewer := index.length_freeTargets_lt hfree
      exact follows_expandTree hbase hindex
        (ih (Nat.le_of_lt_succ (Nat.lt_of_lt_of_le hfewer hdepth))) copy place s hs hstands

end

/-! ### Documents -/

/-- Whether a pattern that was read with the list is one that was read without it. -/
def StandsForPattern (p : ExpandedPattern α) (q : Pattern α) : Prop :=
  p.1 = q ∧ p.2.map (·.figure) = q.content.map (·.body) ∧ ∀ body ∈ p.2, body.IsFresh []

/-- Whether patterns that were read with the list are those that were read without it. -/
def StandForPatterns (ps : List (ExpandedPattern α)) (qs : List (Pattern α)) : Prop :=
  ps.map (·.1) = qs ∧
    ∀ p ∈ ps, p.2.map (·.figure) = p.1.content.map (·.body) ∧ ∀ body ∈ p.2, body.IsFresh []

omit [Number α] in
theorem standForPatterns_nil : StandForPatterns ([] : List (ExpandedPattern α)) [] :=
  ⟨rfl, fun _ hp => absurd hp List.not_mem_nil⟩

section

variable {base : Arena} {index : DocumentIndex} {depth : Nat} {s : ExpansionState}

theorem follows_expandContent (hbase : base.IsWritten) (hindex : index.PointsInto base)
    (hdepth : (index.freeTargets []).length ≤ depth) (hs : IsAt base [] s) {tree : Tree}
    (hstands : tree.StandsIn s.reading.arena) (e : Element) (kind : PatternKind) :
    Follows base (expandContent (α := α) index depth tree e kind)
      (patternContent index tree e kind)
      (fun p content => p.1 = content ∧ p.2.figure = content.body ∧ p.2.IsFresh []) s := by
  have hbodies := gives_patternParts (α := α) tree e kind s.reading
  unfold expandContent patternContent bindOutermost
  refine (Follows.reads (reads_patternParts tree e kind)).after
    fun parts s' hparts _ hrestores => ?_
  rw [← hparts] at hbodies
  obtain ⟨content, place⟩ := parts
  have hinside := follows_expandTrees hbase hindex
    (readsCopies_expandWithin (α := α) hbase hindex hdepth) tree.children
  refine (follows_expandFigure fun inner s'' hrestores' => hinside inner s''
    (hs.restored (hrestores.trans hrestores'))
    (hstands.mono (hrestores.trans hrestores').arena).children).bind
      fun body s'' hbody _ _ => ?_
  refine (Follows.reads (reads_checkRoles kind e)).after fun _ _ _ _ _ => .pure ?_
  obtain ⟨hfigure, hfresh⟩ := hbody
  exact ⟨congrArg content hfigure, hfigure.trans (hbodies _).symm, hfresh⟩

omit [Number α] in
/-- Both leave a pattern in the same way, with the reports made since it was entered. -/
theorem follows_patternEnd (before : Nat) (name library : String) (tree : Tree)
    {p : Option (PatternContent α × ExpandedFigure α)}
    (hp : ∀ found ∈ p, found.2.figure = found.1.body ∧ found.2.IsFresh []) :
    Follows base (do
        let reports := (← get).reading.diagnostics.items.drop before
        return ((⟨name, library, p.map (·.1), tree.id, tree.content.span, reports⟩ : Pattern α),
          p.map (·.2)))
      (do
        let reports := (← get).diagnostics.items.drop before
        return ⟨name, library, p.map (·.1), tree.id, tree.content.span, reports⟩)
      StandsForPattern s := by
  refine .lookBoth (.pure ⟨rfl, ?_, fun body hbody => ?_⟩)
  · cases p with
    | none => rfl
    | some found => exact congrArg some (hp found rfl).1
  · obtain ⟨found, hfound, rfl⟩ := Option.map_eq_some_iff.1 hbody
    exact (hp found hfound).2

theorem follows_expandPattern (hbase : base.IsWritten) (hindex : index.PointsInto base)
    (hdepth : (index.freeTargets []).length ≤ depth) (hs : IsAt base [] s) (library : String)
    {tree : Tree} (hstands : tree.StandsIn s.reading.arena) (e : Element) :
    Follows base (expandPattern (α := α) index depth library tree e)
      (bindPattern index library tree e) StandsForPattern s := by
  have hskipped : ∀ name s', Follows base (do
      step (markTree tree)
      let reports := (← get).reading.diagnostics.items.drop s.reading.diagnostics.size
      return ((⟨name, library, none, tree.id, tree.content.span, reports⟩ : Pattern α), none))
      (do
        markTree tree
        let reports := (← get).diagnostics.items.drop s.reading.diagnostics.size
        return ⟨name, library, none, tree.id, tree.content.span, reports⟩)
      StandsForPattern s' := fun name s' =>
    (Follows.reads (reads_markTree tree)).after fun _ _ _ _ _ =>
      follows_patternEnd _ name library tree (p := none) (fun _ h => nomatch h)
  unfold expandPattern bindPattern
  refine .lookBoth ((Follows.reads (reads_patternHead tree e)).after
    fun head s' _ _ hrestores => ?_)
  obtain ⟨name, kind⟩ := head
  rcases name with _ | name
  · exact hskipped _ s'
  · rcases kind with _ | kind
    · exact hskipped _ s'
    · refine (follows_expandContent hbase hindex hdepth (hs.restored hrestores)
        (hstands.mono hrestores.arena) e kind).bind fun content s'' hcontent _ _ => ?_
      obtain ⟨hsame, hbody⟩ := hcontent
      rw [← hsame] at hbody ⊢
      refine follows_patternEnd _ name library tree (p := some content) ?_
      rintro found ⟨⟩
      exact hbody

theorem follows_expandEntries (hbase : base.IsWritten) (hindex : index.PointsInto base)
    (hdepth : (index.freeTargets []).length ≤ depth) (hs : IsAt base [] s) (library : String)
    (names : List String) (entries : List (Tree × Element × Tag))
    (hstand : ∀ entry ∈ entries, entry.1.StandsIn s.reading.arena) :
    Follows base (expandEntries (α := α) index depth library names entries)
      (bindEntries index library names entries) StandForPatterns s := by
  induction entries generalizing names s with
  | nil => exact .pure standForPatterns_nil
  | cons entry entries ih =>
      obtain ⟨tree, e, tag⟩ := entry
      have hmore : ∀ names s', Restores base s s' →
          Follows base (expandEntries (α := α) index depth library names entries)
            (bindEntries index library names entries) StandForPatterns s' :=
        fun names s' hrestores => ih (hs.restored hrestores) names fun entry hentry =>
          (hstand entry (List.mem_cons_of_mem _ hentry)).mono hrestores.arena
      have hpassed : ∀ {b : Binder Unit}, Reads b → Follows base (do
          step b
          expandEntries (α := α) index depth library names entries)
          (do
            b
            bindEntries index library names entries) StandForPatterns s :=
        fun hb => (Follows.reads hb).after fun _ s' _ _ hrestores => hmore names s' hrestores
      unfold expandEntries bindEntries
      cases tag with
      | pattern =>
          refine (follows_expandPattern hbase hindex hdepth hs library
            (hstand _ List.mem_cons_self) e).bind fun p s' hp _ hrestores => ?_
          obtain ⟨hsame, hbody⟩ := hp
          rw [← hsame] at hbody ⊢
          refine (Follows.reads (reads_reportDuplicate names e p.1)).after
            fun _ s'' _ _ hrestores' => ?_
          refine (hmore _ s'' (hrestores.trans hrestores')).bind fun ps _ hps _ _ => .pure ?_
          obtain ⟨hmap, hbodies⟩ := hps
          refine ⟨congrArg (p.1 :: ·) hmap, fun other hother => ?_⟩
          rcases List.mem_cons.1 hother with rfl | hother
          · exact hbody
          · exact hbodies other hother
      | defs => exact hpassed (reads_markNode tree)
      | desc => exact hpassed (reads_markTree tree)
      | title => exact hpassed (reads_markTree tree)
      | paint _ => exact hmore names s (.refl base s)
      | unknown name => exact hpassed (reads_reject tree _)
      | _ => exact hpassed (reads_reject tree _)

theorem follows_expandRoot (hbase : base.IsWritten) (hindex : index.PointsInto base)
    (hdepth : (index.freeTargets []).length ≤ depth) (hs : IsAt base [] s) (o : BindOptions)
    {tree : Tree} (hstands : tree.element?.isSome → tree.StandsIn s.reading.arena) :
    Follows base (expandRoot (α := α) index depth o tree) (bindRoot index o tree)
      StandForPatterns s := by
  unfold expandRoot bindRoot
  rcases hfound : tree.element? with _ | ⟨e, tag⟩
  · exact (Follows.reads (reads_reject tree _)).after fun _ _ _ _ _ => .pure standForPatterns_nil
  · have hstands := hstands (by rw [hfound]; rfl)
    have hrefused : ∀ message, Follows base (do
        step (reject tree message)
        return ([] : List (ExpandedPattern α)))
        (do
          reject tree message
          return []) StandForPatterns s := fun message =>
      (Follows.reads (reads_reject tree message)).after fun _ _ _ _ _ => .pure standForPatterns_nil
    cases tag with
    | library =>
        refine (Follows.reads (reads_markNode tree)).after fun _ s' _ _ hrestores => ?_
        refine (Follows.reads (reads_bindLibraryName o e)).after
          fun library s'' _ _ hrestores' => ?_
        have hall := hrestores.trans hrestores'
        exact follows_expandEntries hbase hindex hdepth (hs.restored hall) library [] _
          fun entry hentry =>
            Tree.standsIn_of_mem_elements (hstands.mono hall.arena).children hentry
    | pattern =>
        refine (follows_expandPattern hbase hindex hdepth hs o.libraryName hstands e).bind
          fun p _ hp _ _ => .pure ⟨congrArg (fun q => [q]) hp.1, fun other hother => ?_⟩
        obtain rfl := List.mem_singleton.1 hother
        exact hp.1 ▸ hp.2
    | _ => exact hrefused _

end

theorem length_collectIds (ids : List (String × NodeId)) (attributes : List Attribute) :
    Gives (collectIds ids attributes) fun found =>
      found.length ≤ ids.length + attributes.length := by
  induction attributes generalizing ids with
  | nil => exact .pure (Nat.le_refl _)
  | cons a rest ih =>
      unfold collectIds
      refine .of_next fun _ => ?_
      simp only [List.length_cons]
      split
      · refine .of_next fun _ r => Nat.le_trans (ih ids r) (by omega)
      · intro r
        refine Nat.le_trans (ih _ r) ?_
        rw [List.length_append, List.length_singleton]
        omega

theorem follows_expandPatterns (o : BindOptions) {doc : Document} (hdoc : doc.arena.IsWritten)
    {depth : Nat} (hdepth : (idAttributes doc.arena).length ≤ depth) {s : ExpansionState}
    (hs : IsAt doc.arena [] s) :
    Follows doc.arena (expandPatterns (α := α) depth o doc) (bindPatterns o doc)
      StandForPatterns s := by
  have hindex := pointsInto_collectIds hdoc o.sourceFolder s.reading
  have hlength := length_collectIds [] (idAttributes doc.arena) s.reading
  unfold expandPatterns bindPatterns
  refine (Follows.reads (reads_collectIds [] (idAttributes doc.arena))).after
    fun ids s' hids _ hrestores => ?_
  rw [← hids] at hindex hlength
  have hs' := hs.restored hrestores
  have hfree : (DocumentIndex.freeTargets ⟨ids, o.sourceFolder⟩ []).length ≤ depth := by
    rw [List.length_nil, Nat.zero_add] at hlength
    refine Nat.le_trans (List.length_filter_le _ _) ?_
    rw [List.length_map]
    exact Nat.le_trans hlength hdepth
  cases doc.root with
  | none => exact (Follows.reads (reads_error ..)).after fun _ _ _ _ _ => .pure standForPatterns_nil
  | some root =>
      exact follows_expandRoot hdoc hindex hfree hs' o fun helement =>
        (Arena.standsIn_of_element helement).mono hs'.grows

/-- Reading a document with the list ends: it needs no more calls within each other than the
document has ids, and gives the patterns that binding gives. At every moment the list holds
different nodes of the source and no copies, after each use it is as it was before, and a use of
a target on it stands for nothing; so no way through a body enters a target twice. -/
theorem expansion_ends (source : String) (keepComments : Bool) (o : BindOptions) (spare : Nat) :
    let doc := Document.ofSource source keepComments
    let d : BoundDocument α := doc.bind o
    ∃ patterns s, expandPatterns ((idAttributes doc.arena).length + spare) o doc
        ⟨{ arena := doc.arena, diagnostics := doc.diagnostics }, [], [[]], []⟩
          = some (patterns, s) ∧
      patterns.map (·.1) = d.patterns ∧ s.reading.identity = d.identity ∧
      s.reading.arena = d.document.arena ∧ s.expanding = [] ∧
      (∀ moment ∈ s.moments, moment.Nodup ∧
        ∀ target ∈ moment, target < doc.arena.size ∧
          (d.document.arena.node target).origin = none) ∧
      (∀ use ∈ s.uses, use.after = use.before ∧ (use.target ∈ use.before → use.found = false)) ∧
      ∀ p ∈ patterns, p.2.map (·.figure) = p.1.content.map (·.body) ∧
        ∀ body ∈ p.2, ∀ path ∈ body.paths, path.Nodup := by
  intro doc d
  have hdoc : doc.arena.IsWritten := Document.isWritten_ofSource source keepComments
  obtain ⟨patterns, s, hrun, ⟨hpatterns, hbodies⟩, hreading, hrestores⟩ :=
    follows_expandPatterns (α := α) o hdoc (Nat.le_add_right _ spare)
      (s := ⟨{ arena := doc.arena, diagnostics := doc.diagnostics }, [], [[]], []⟩)
      ⟨.refl _, ⟨List.nodup_nil, nofun⟩, rfl⟩
  obtain ⟨moments, hmoments, hdistinct⟩ := hrestores.moments
  obtain ⟨uses, huses, hkept⟩ := hrestores.uses
  have harena : s.reading.arena = d.document.arena := congrArg DocumentReading.arena hreading
  refine ⟨patterns, s, hrun, hpatterns, congrArg DocumentReading.identity hreading, harena,
    hrestores.expanding, fun moment hmoment => ?_, fun use huse => ?_, fun p hp => ?_⟩
  · rw [hmoments] at hmoment
    rcases List.mem_append.1 hmoment with hmoment | hmoment
    · obtain ⟨hnodup, hlt⟩ := hdistinct moment hmoment
      refine ⟨hnodup, fun target htarget => ⟨hlt target htarget, ?_⟩⟩
      rw [← harena, hrestores.arena.kept target (hlt target htarget)]
      exact (hdoc target).origin
    · obtain rfl := List.mem_singleton.1 hmoment
      exact ⟨List.nodup_nil, nofun⟩
  · rw [huses, List.append_nil] at huse
    exact hkept use huse
  · obtain ⟨hbody, hfresh⟩ := hbodies p hp
    exact ⟨hbody, fun body hmem path hpath => (hfresh body hmem path hpath).1⟩

end PatternMarkup
