import PatternMarkup.Drawing.Sheet
import PatternMarkup.Geometry.Mapping
import PatternMarkup.Geometry.Path
import PatternMarkup.Pattern.Figure
/-!
The values that a figure's expressions have in one scope: how it looks, its paints, and its
outline.
-/

namespace PatternMarkup

variable {α : Type} [Number α]

/-- The value of an expression that may be missing. -/
def evaluateOption {τ : Type} [Typed α τ] (s : Scope α) :
    Option (Expression α τ) → Except EvalError (Option τ)
  | none => .ok none
  | some e => (e.evaluate s).map some

/-- The value of a name, as one of a type. -/
def Scope.read {τ : Type} [Typed α τ] (s : Scope α) (name : String) : Except EvalError τ := do
  Typed.ofValue (← s.environment.read name)

/-! ### Styles -/

/-- How a figure looks, apart from its paints. -/
structure Look (α : Type) where
  strokeWidth : α
  textColor : Color α
  visible : Bool
  transform : Transform α
  ownTransform : Option (Transform α)

/-- How a figure looks in a scope. Without a color of its own, text takes that of the scope. -/
def Style.look (style : Style α) (s : Scope α) : Except EvalError (Look α) := do
  let strokeWidth ← style.strokeWidth.evaluate s
  let textColor ←
    match style.textColor with
    | some color => color.evaluate s
    | none => s.read "text_color"
  let visible ← style.visible.evaluate s
  let transform ← style.transform.evaluate s
  let ownTransform ← evaluateOption s style.ownTransform
  return ⟨strokeWidth, textColor, visible, transform, ownTransform⟩

/-- The map of a figure that looks so. -/
def Look.mapping (look : Look α) (m : Mapping α) : Mapping α :=
  match look.ownTransform with
  | some own => m.transformed own
  | none => m

/-- The color of a paint that is one color, if it can be had. -/
def Paint.solid? (s : Scope α) : Paint α → Option (Color α)
  | color c => (c.evaluate s).toOption
  | _ => none

/-- Gives a name the color of a paint, if it has one. -/
def bindPaint (name : String) (paint : Option (Paint α)) (outer s : Scope α) : Scope α :=
  match paint.bind (Paint.solid? outer) with
  | some color => s.bindValue name (.color color)
  | none => s

/-- The scope of the figures in one that looks so. -/
def Look.scope (look : Look α) (style : Style α) (s : Scope α) : Scope α :=
  let painted := bindPaint "stroke" style.stroke s (bindPaint "fill" style.fill s s.child)
  ((painted.bindValue "stroke_width" (.scalar look.strokeWidth)).bindValue "text_color"
    (.color look.textColor)).bindValue "transform" (.transform look.transform)

/-! ### Paints -/

/-- The stops of a gradient; their places are brought between zero and one. -/
def canvasStops (s : Scope α) :
    List (GradientStop α) → Except EvalError (List (CanvasStop α))
  | [] => .ok []
  | stop :: rest => do
      let offset ← stop.offset.evaluate s
      let color ← stop.color.evaluate s
      return ⟨Number.clamp offset Number.zero Number.one, color⟩ :: (← canvasStops s rest)

/-- The point at given fractions of the extents of a rectangle. -/
def Rect.at (r : Rect α) (fx fy : α) : Point α := ⟨r.x + fx * r.width, r.y + fy * r.height⟩

/-- A paint for a figure of the given bounds. -/
def Paint.resolve (bounds : Rect α) (m : Mapping α) (s : Scope α) :
    Paint α → Except EvalError (CanvasPaint α)
  | color c => return .solid (← c.evaluate s)
  | linear x1 y1 x2 y2 stops => do
      let start := m.apply (bounds.at (← x1.evaluate s) (← y1.evaluate s))
      let stop := m.apply (bounds.at (← x2.evaluate s) (← y2.evaluate s))
      return .linear start stop (← canvasStops s stops)
  | radial cx cy r stops => do
      let center := m.apply (bounds.at (← cx.evaluate s) (← cy.evaluate s))
      let radius :=
        (← r.evaluate s) * (bounds.width + bounds.height) / Number.two * m.lengthScale
      return .radial center radius (← canvasStops s stops)

/-- A paint that may be missing. -/
def resolvePaint (bounds : Rect α) (m : Mapping α) (s : Scope α) :
    Option (Paint α) → Except EvalError (Option (CanvasPaint α))
  | none => .ok none
  | some paint => (paint.resolve bounds m s).map some

/-! ### Outlines -/

/-- The points whose coordinates alternate in a list. -/
def pointsOf : List α → List (Point α)
  | x :: y :: rest => ⟨x, y⟩ :: pointsOf rest
  | _ => []

/-- The radii of a rectangle's corners; one that is missing is like the other. -/
def cornerRadii? : Option α → Option α → Option (α × α)
  | none, none => none
  | some rx, none => some (rx, rx)
  | none, some ry => some (ry, ry)
  | some rx, some ry => some (rx, ry)

/-- The outline of a shape in the coordinates of its figure. -/
def Shape.outline (s : Scope α) : Shape α → Except EvalError (Path α)
  | rect x y width height rx ry => do
      let r : Rect α :=
        ⟨← x.evaluate s, ← y.evaluate s, ← width.evaluate s, ← height.evaluate s⟩
      match cornerRadii? (← evaluateOption s rx) (← evaluateOption s ry) with
      | none => return .ofRect r
      | some (rx, ry) => return .roundedRect r rx ry
  | ellipse cx cy rx ry => do
      return .ellipse ⟨← cx.evaluate s, ← cy.evaluate s⟩ (← rx.evaluate s) (← ry.evaluate s)
  | circle cx cy r => do
      let r ← r.evaluate s
      return .ellipse ⟨← cx.evaluate s, ← cy.evaluate s⟩ r r
  | line x1 y1 x2 y2 => do
      return .polyline [⟨← x1.evaluate s, ← y1.evaluate s⟩,
        ⟨← x2.evaluate s, ← y2.evaluate s⟩] false
  | corners points closed => do
      let numbers ← points.evaluate s
      if numbers.length % 2 = 0 then return .polyline (pointsOf numbers) closed
      else .error (.invalidArgument "points"
        ("expected x and y pairs, found " ++ toString numbers.length ++ " numbers"))
  | path data => .ok data

/-- Whether a shape has an inside to fill. -/
def Shape.hasInside : Shape α → Bool
  | line .. => false
  | _ => true

/-! ### Frames -/

/-- The place of a figure in the one around it, inside its margins. -/
def FigureFrame.rect (frame : FigureFrame α) (s : Scope α) : Except EvalError (Rect α) := do
  let outerWidth ← s.read "width"
  let outerHeight ← s.read "height"
  let x := (← evaluateOption s frame.x).getD Number.zero
  let y := (← evaluateOption s frame.y).getD Number.zero
  let width := (← evaluateOption s frame.width).getD (outerWidth - x)
  let height := (← evaluateOption s frame.height).getD (outerHeight - y)
  let margin := (← evaluateOption s frame.margin).getD (.uniform Number.zero)
  return (⟨x, y, width, height⟩ : Rect α).inset margin

/-- The slicing of a figure's inside. -/
def SliceFormulas.evaluate (f : SliceFormulas α) (s : Scope α) :
    Except EvalError (SliceValues α) := do
  let reference ← f.reference.evaluate s
  let xs ← f.xs.evaluate s
  let ys ← f.ys.evaluate s
  (SliceValues.make reference xs ys).mapError fun e => .invalidArgument "n-slice" e.message

/-- The slicing of a figure's inside, if it has one. -/
def FigureFrame.slicing? (frame : FigureFrame α) (s : Scope α) :
    Except EvalError (Option (SliceValues α)) :=
  match frame.slicing with
  | none => .ok none
  | some f => (f.evaluate s).map some

end PatternMarkup
