import PatternMarkup.Pattern.Bind.Content
import PatternMarkup.Pattern.Bind.Style
import PatternMarkup.Pattern.Bind.Variable
/-!
Reading figures and all in them. An element that uses another one stands for a copy of it; a
target that is being copied already is refused, so reading always ends.
-/

namespace PatternMarkup

open Binder

variable {α : Type} [Number α]

/-- A way to read a tree at a place. -/
abbrev TreeBinder (α : Type) := Tree → Place α → Binder (Option (Figure α))

/-- Reads a figure without those in it, and the place they have. -/
def openFigure (index : DocumentIndex) (tag : FigureTag) (tree : Tree) (e : Element)
    (place : Place α) : Binder (FigureHead α × Place α) := do
  markNode tree
  let id ← nextFigure
  let (loop, s) ← figureLoop e place.scope
  let (vars, s) ← figureVariables tree.children s
  let (kind, s) ← figureKind index tag e tree.children s
  let style ← figureStyle index e s place.style
  return (⟨id, tree.id, tree.content.span, kind, style, loop, vars⟩, ⟨s, style.inherited⟩)

/-- Records where a figure comes from that was read from a tree. -/
def closeFigure (head : FigureHead α) (tree : Tree) : Binder Unit :=
  recordFigure ⟨head.id, head.node, tree.content.source tree.id⟩

/-- Reads a figure; `inside` reads those in it. -/
def bindFigure (index : DocumentIndex) (tag : FigureTag) (tree : Tree) (e : Element)
    (place : Place α) (inside : Place α → Binder (List (Figure α))) : Binder (Figure α) := do
  let (head, inner) ← openFigure index tag tree e place
  let children ← if tag = .text then pure [] else inside inner
  closeFigure head tree
  return .mk head children

/-! ### Uses -/

/-- The attributes that an element passes on to what it uses. -/
def passedAttributes (e : Element) : List Attribute :=
  e.attributes.filter fun a => a.name != "href" && a.name != "id"

/-- Adds a copy of a node of the source with other attributes; its tree. -/
def copyTarget (target : NodeId) (overrides : List Attribute) : Binder Tree := do
  let r ← get
  let arena := r.arena.copySubtree (r.arena.source target) overrides
  set { r with arena }
  return arena.tree r.arena.size

/-- Reads what an element uses: the target and the attribute that refers to it. -/
def useTarget? (index : DocumentIndex) (tree : Tree) (e : Element) :
    Binder (Option (Attribute × NodeId)) := do
  markNode tree
  match ← requiredAttribute? e "href" with
  | none => return none
  | some href => return (← reference? index href).map fun target => (href, target)

/-- Adds the copy of a target that an element stands for, if the target can be drawn. -/
def useCopy? (e : Element) (href : Attribute) (target : NodeId) : Binder (Option Tree) := do
  let found := ((← get).arena.tree target).element?
  if found.any (·.2.isDrawable) then
    let overrides := passedAttributes e
    overrides.forM fun a => mark (·.markAttribute a)
    return some (← copyTarget target overrides)
  else
    let name := (found.map (·.1.name)).getD "text"
    error href.valueSpan ("<use> cannot expand a <" ++ name ++ ">")
    return none

/-- Reports a use of a target inside a copy of it. -/
def refuseUse (href : Attribute) : Binder Unit :=
  error href.valueSpan ("'" ++ trimText href.value ++
    "' refers to an element that is already being expanded")

/-- Reads a copy of a target. `expand` tells how, unless a copy of it is being read. -/
def bindReference (expand : NodeId → Option (TreeBinder α)) (e : Element) (href : Attribute)
    (target : NodeId) (place : Place α) : Binder (Option (Figure α)) := do
  match expand target with
  | none =>
      refuseUse href
      return none
  | some bindCopy =>
      match ← useCopy? e href target with
      | none => return none
      | some copy => bindCopy copy place

/-- Reads an element that uses another one; `expand` tells how a copy of it is read. -/
def bindUse (index : DocumentIndex) (expand : NodeId → Option (TreeBinder α)) (tree : Tree)
    (e : Element) (place : Place α) : Binder (Option (Figure α)) := do
  match ← useTarget? index tree e with
  | none => return none
  | some (href, target) => bindReference expand e href target place

/-! ### Trees -/

/-- Reports a declaration that lies elsewhere than directly in a pattern. -/
def rejectDeclaration (tree : Tree) (name : String) : Binder Unit := do
  unless ← wasRead tree do
    reject tree ("<" ++ name ++ "> must be a direct child of <pattern>")

/-- Takes in an element that stands for no figure. -/
def passOver (tree : Tree) (e : Element) (tag : Tag) : Binder Unit := do
  match tag with
  | .var => return
  | .arg => rejectDeclaration tree e.name
  | .args => rejectDeclaration tree e.name
  | .validate => rejectDeclaration tree e.name
  | .desc => markTree tree
  | .title => markTree tree
  | .paint _ => return
  | .defs => markNode tree
  | .unknown name => rejectUnknown tree name
  | _ => reject tree ("<" ++ e.name ++ "> is not allowed here")

mutual

/-- Reads what an element stands for, if it is drawn. -/
def bindTree (index : DocumentIndex) (expand : NodeId → Option (TreeBinder α)) : TreeBinder α
  | .node id content children, place => do
      let tree := Tree.node id content children
      match tree.element? with
      | none => return none
      | some (e, .figure tag) =>
          return some (← bindFigure index tag tree e place fun inner =>
            bindTrees index expand children inner)
      | some (e, .use) => bindUse index expand tree e place
      | some (e, tag) =>
          passOver tree e tag
          return none

/-- Reads what several elements stand for. -/
def bindTrees (index : DocumentIndex) (expand : NodeId → Option (TreeBinder α)) :
    List Tree → Place α → Binder (List (Figure α))
  | [], _ => return []
  | tree :: rest, place => do
      let first ← bindTree index expand tree place
      return first.toList ++ (← bindTrees index expand rest place)

end

/-! ### Copies in copies -/

/-- The targets of references that are not being expanded. -/
def DocumentIndex.freeTargets (index : DocumentIndex) (expanding : List NodeId) : List NodeId :=
  (index.ids.map (·.2)).filter fun target => !expanding.contains target

theorem DocumentIndex.length_freeTargets_lt {index : DocumentIndex} {expanding : List NodeId}
    {target : NodeId} (h : target ∈ index.freeTargets expanding) :
    (index.freeTargets (target :: expanding)).length < (index.freeTargets expanding).length := by
  have hsub : index.freeTargets (target :: expanding) =
      (index.freeTargets expanding).filter (· != target) := by
    unfold freeTargets
    rw [List.filter_filter]
    refine List.filter_congr fun t _ => ?_
    simp only [List.contains_cons, Bool.not_or, bne]
  rw [hsub]
  exact List.length_filter_lt_length_iff_exists.2 ⟨target, h, by simp⟩

/-- How a target is read while others are being expanded; one of those is refused. -/
def expandTarget (index : DocumentIndex) (expanding : List NodeId) (target : NodeId) :
    Option (TreeBinder α) :=
  if _h : target ∈ index.freeTargets expanding then
    some fun copy place =>
      bindTree index (expandTarget index (target :: expanding)) copy place
  else none
termination_by (index.freeTargets expanding).length
decreasing_by exact index.length_freeTargets_lt _h

/-- Reads a figure of a pattern, outside all copies. -/
def bindOutermost (index : DocumentIndex) (tag : FigureTag) (tree : Tree) (e : Element)
    (place : Place α) : Binder (Figure α) :=
  bindFigure index tag tree e place fun inner =>
    bindTrees index (expandTarget index []) tree.children inner

end PatternMarkup
