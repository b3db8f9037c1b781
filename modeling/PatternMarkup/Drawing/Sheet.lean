import PatternMarkup.Files.Path
import PatternMarkup.Formula.Error
import PatternMarkup.Geometry.Color
import PatternMarkup.Geometry.Path
import PatternMarkup.Markup.Diagnostic
/-!
What a canvas is asked to do, all in places of the canvas, and steps of drawing. A step may fail,
and what it has drawn before stays; so a step is a sheet, all that it leaves behind, beside its
result.
-/

namespace PatternMarkup

/-- A color at a place of a gradient, between zero and one. -/
structure CanvasStop (α : Type) where
  offset : α
  color : Color α
deriving Repr, BEq, DecidableEq, Inhabited

/-- What fills or strokes a path. -/
inductive CanvasPaint (α : Type) where
  | solid (color : Color α)
  | linear (start stop : Point α) (stops : List (CanvasStop α))
  | radial (center : Point α) (radius : α) (stops : List (CanvasStop α))
deriving Repr, DecidableEq, Inhabited

/-- Whether a paint leaves no trace. -/
def CanvasPaint.isInvisible {α : Type} [Number α] : CanvasPaint α → Bool
  | solid color => color.isTransparent
  | linear _ _ stops => stops.all (·.color.isTransparent)
  | radial _ _ stops => stops.all (·.color.isTransparent)

/-- How a line of text looks. -/
structure TextStyle (α : Type) where
  fontSize : α
  fontFamily : Option String
  color : Color α
deriving Repr, DecidableEq, Inhabited

/-- A command to a canvas. -/
inductive DrawCommand (α : Type) where
  /-- Remembers the clip. -/
  | save
  /-- Goes back to the clip that was last remembered. -/
  | restore
  /-- Cuts off all that follows at a path. -/
  | clip (path : Path α)
  | fill (path : Path α) (paint : CanvasPaint α)
  | stroke (path : Path α) (paint : CanvasPaint α) (width : α)
  /-- Writes a line of text from the left end of its baseline on. -/
  | text (text : String) (origin : Point α) (style : TextStyle α)
  | image (href : FilePath) (rect : Rect α)
  /-- Names a place that is filled from outside. -/
  | field (name : String) (rect : Rect α)
deriving Repr, Inhabited

namespace DrawCommand

variable {α : Type}

/-- Whether a command puts something on the canvas. -/
def isMark : DrawCommand α → Bool
  | save => false
  | restore => false
  | clip _ => false
  | _ => true

/-- The text a command writes. -/
def text? : DrawCommand α → Option String
  | text t _ _ => some t
  | _ => none

/-- The name of the place a command leaves to others. -/
def fieldName? : DrawCommand α → Option String
  | field name _ => some name
  | _ => none

end DrawCommand

/-! ### Steps of drawing -/

/-- What steps of drawing leave behind. -/
structure Sheet (α : Type) where
  commands : List (DrawCommand α) := []
  /-- The reports about figures that were left out. -/
  reports : List Diagnostic := []
  /-- How often something was put on the canvas. -/
  drawn : Nat := 0
  /-- How many figures were left out. -/
  skipped : Nat := 0
deriving Inhabited

namespace Sheet

variable {α : Type}

/-- One sheet after another. -/
def append (s t : Sheet α) : Sheet α :=
  ⟨s.commands ++ t.commands, s.reports ++ t.reports, s.drawn + t.drawn, s.skipped + t.skipped⟩

instance : Append (Sheet α) := ⟨append⟩

end Sheet

/-- A step of drawing: what it leaves behind, and its result. -/
structure Draw (α β : Type) where
  sheet : Sheet α
  result : Except EvalError β

namespace Draw

variable {α β γ : Type}

/-- The step that draws nothing. -/
def nothing (b : β) : Draw α β := ⟨{}, .ok b⟩

/-- One step after another; nothing follows a step that fails. -/
def andThen (x : Draw α β) (next : β → Draw α γ) : Draw α γ :=
  match x.result with
  | .ok b =>
      let y := next b
      ⟨x.sheet ++ y.sheet, y.result⟩
  | .error e => ⟨x.sheet, .error e⟩

instance : Monad (Draw α) where
  pure := nothing
  bind := andThen

/-- A value that may be missing, without anything drawn. -/
def ofExcept (result : Except EvalError β) : Draw α β := ⟨{}, result⟩

instance : MonadLift (Except EvalError) (Draw α) := ⟨ofExcept⟩

/-- A command that puts nothing on the canvas. -/
def command (c : DrawCommand α) : Draw α Unit := ⟨{ commands := [c] }, .ok ()⟩

/-- A command that puts something on the canvas. -/
def mark (c : DrawCommand α) : Draw α Unit := ⟨{ commands := [c], drawn := 1 }, .ok ()⟩

/-- A report about a figure that is left out. -/
def skip (d : Diagnostic) : Draw α Unit := ⟨{ reports := [d], skipped := 1 }, .ok ()⟩

/-- A step, and another one if it fails. -/
def orElse (x : Draw α Unit) (other : EvalError → Draw α Unit) : Draw α Unit :=
  match x.result with
  | .ok () => x
  | .error e =>
      let y := other e
      ⟨x.sheet ++ y.sheet, y.result⟩

end Draw

end PatternMarkup
