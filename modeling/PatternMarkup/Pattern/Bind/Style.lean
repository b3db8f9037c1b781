import PatternMarkup.Pattern.Bind.Value
/-!
Reading how a figure looks: its own attributes over what it takes over from the figure around
it. Paints that are referred to are read in the scope of the figure that uses them.
-/

namespace PatternMarkup

open Binder

variable {α : Type} [Number α]

/-- Reads the stops of a gradient. -/
def gradientStops (s : Scope α) : List (Tree × Element × Tag) → Binder (List (GradientStop α))
  | [] => return []
  | (tree, e, tag) :: rest => do
      if tag = .stop then
        markNode tree
        let offset ← required e "offset" s none (.constant Number.zero)
        let color ← required e "color" s none (.constant Color.transparent)
        return ⟨offset, color⟩ :: (← gradientStops s rest)
      else
        reject tree ("<" ++ e.name ++ "> cannot appear inside a gradient")
        gradientStops s rest

/-- Reads the stops of a gradient; it should have some. -/
def gradient (s : Scope α) (tree : Tree) : Binder (List (GradientStop α)) := do
  let stops ← gradientStops s (Tree.elements tree.children)
  if stops.isEmpty then warning tree.content.span "gradient has no stops"
  return stops

/-- Reads a number of a paint. -/
def paintNumber (s : Scope α) (e : Element) (name : String) (default : α) :
    Binder (Expression α α) :=
  typedOr e name s none (.constant default)

/-- Reads an element that is a paint. -/
def paintElement (s : Scope α) (kind : PaintKind) (tree : Tree) (e : Element) :
    Binder (Paint α) := do
  markNode tree
  match kind with
  | .solid => return .color (← required e "color" s none (.constant Color.transparent))
  | .linear =>
      let x1 ← paintNumber s e "x1" Number.zero
      let y1 ← paintNumber s e "y1" Number.zero
      let x2 ← paintNumber s e "x2" Number.one
      let y2 ← paintNumber s e "y2" Number.zero
      return .linear x1 y1 x2 y2 (← gradient s tree)
  | .radial =>
      let cx ← paintNumber s e "cx" Number.half
      let cy ← paintNumber s e "cy" Number.half
      let r ← paintNumber s e "r" Number.half
      return .radial cx cy r (← gradient s tree)

/-- Reads an attribute that is a color or refers to a paint. -/
def paint? (index : DocumentIndex) (a : Attribute) (s : Scope α) : Binder (Option (Paint α)) := do
  if (referenceTarget? a.value).isNone then return (← a.typed? s none).map .color
  else
    match ← reference? index a with
    | none => return none
    | some target =>
        let tree := (← get).arena.tree target
        match tree.element? with
        | some (e, .paint kind) => return some (← paintElement s kind tree e)
        | other =>
            let name := (other.map (·.1.name)).getD "text"
            error a.valueSpan ("'" ++ trimText a.value ++ "' refers to a <" ++ name ++
              ">, not a paint")
            return none

/-- Reads a paint of a figure. -/
def figurePaint? (index : DocumentIndex) (e : Element) (name : String) (s : Scope α) :
    Binder (Option (Paint α)) := do
  match ← attribute? e name with
  | some a => paint? index a s
  | none => return none

/-- Reads whether what lies in a figure is cut off at its frame. -/
def figureClip (e : Element) : Binder Bool := do
  match ← attribute? e "clip" with
  | none => return false
  | some a =>
      match trimText a.value with
      | "true" => return true
      | "yes" => return true
      | "false" => return false
      | "no" => return false
      | other =>
          error a.valueSpan ("'clip' must be true or false, found '" ++ other ++ "'")
          return false

/-- The style with a map of its own inside the maps around. -/
def Style.withTransform (style : Style α) (e : Element) (outer : Expression α (Transform α))
    (own : Expression α (Transform α)) : Binder (Style α) := do
  match Expression.compose outer own with
  | .ok transform => return { style with transform, ownTransform := some own }
  | .error fault =>
      match e.attribute? "transform" with
      | some a => error a.valueSpan fault.message
      | none => pure ()
      return { style with ownTransform := some own }

/-- Reads the style of a figure over that of the figure around it. -/
def figureStyle (index : DocumentIndex) (e : Element) (s : Scope α) (outer : Style α) :
    Binder (Style α) := do
  let style := outer.inherited
  let fill ← figurePaint? index e "fill" s
  let stroke ← figurePaint? index e "stroke" s
  let strokeWidth ← typed? e "stroke-width" s none
  let textColor ← typed? e "text-color" s none
  let visible ← typed? e "visible" s none
  let style : Style α := { style with
    fill := fill.or style.fill
    stroke := stroke.or style.stroke
    strokeWidth := strokeWidth.getD style.strokeWidth
    textColor := textColor.or style.textColor
    visible := visible.getD style.visible }
  let style ← match (← typed? e "transform" s none : Option (Expression α (Transform α))) with
    | some own => style.withTransform e outer.transform own
    | none => pure style
  return { style with clip := ← figureClip e }

end PatternMarkup
