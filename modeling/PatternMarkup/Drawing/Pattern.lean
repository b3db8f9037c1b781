import PatternMarkup.Drawing.Figure
import PatternMarkup.Pattern.InstanceBinding
/-!
Drawing a pattern for an instance. Whatever the outcome, the commands given to the canvas are
part of it.
-/

namespace PatternMarkup

/-- Why a pattern is not drawn. -/
inductive DrawError (α : Type) where
  | unusable (name : String)
  | invalidTarget (width height : α)
  | evaluation (name : String) (error : EvalError)
deriving Repr, Inhabited

variable {α : Type} [Number α]

/-- What a report says about the error. -/
def DrawError.message : DrawError α → String
  | unusable name => "pattern '" ++ name ++ "' failed to bind and cannot be drawn"
  | invalidTarget width height =>
      "target rectangle " ++ Number.text width ++ " x " ++ Number.text height ++
        " is not drawable"
  | evaluation name error => "pattern '" ++ name ++ "': " ++ error.message

/-- What is said about a drawing. -/
structure DrawReport where
  /-- The reports about the instance, then those about figures that were left out. -/
  diagnostics : Diagnostics
  drawn : Nat
  skipped : Nat
deriving Inhabited

/-- What comes of drawing a pattern. -/
structure DrawOutcome (α : Type) where
  commands : List (DrawCommand α)
  report : Except (DrawError α) DrawReport

/-- Whether an extent is finite and not negative. -/
def isExtent (x : α) : Bool := Number.isFinite x && decide (Number.zero ≤ x)

/-- Whether a rectangle can be drawn into. -/
def Rect.isTarget (r : Rect α) : Bool :=
  isExtent r.width && isExtent r.height && Number.isFinite r.x && Number.isFinite r.y

namespace Pattern

/-- Draws what a usable pattern holds. -/
def drawBody (stage : Stage α) (p : Pattern α) (body : Figure α) (i : Instance α)
    (target : Rect α) : DrawOutcome α :=
  let (values, diagnostics) := p.bindArguments i
  let s := values.scope (stage.scope target.size)
  let drawing := body.draw stage s (.ofTransform (.translate target.x target.y))
  ⟨drawing.sheet.commands,
    match drawing.result with
    | .ok () => .ok ⟨diagnostics.pushAll drawing.sheet.reports, drawing.sheet.drawn,
        drawing.sheet.skipped⟩
    | .error e => .error (.evaluation p.qualifiedName e)⟩

/-- Draws a pattern for an instance into a rectangle. -/
def draw (stage : Stage α) (p : Pattern α) (i : Instance α) (target : Rect α) :
    DrawOutcome α :=
  match p.content with
  | none => ⟨[], .error (.unusable p.qualifiedName)⟩
  | some content =>
      if target.isTarget then p.drawBody stage content.body i target
      else ⟨[], .error (.invalidTarget target.width target.height)⟩

end Pattern

end PatternMarkup
