import PatternMarkup.Drawing.Pattern
import PatternMarkup.Exchange.Geometry
import PatternMarkup.Exchange.Problem
/-!
How drawings are written as JSON.
-/

namespace PatternMarkup

/-- A stop of a gradient: its place and its color. -/
def CanvasStop.json (s : CanvasStop Float) : Json := .list [.float s.offset, s.color.json]

/-- A paint. -/
def CanvasPaint.json : CanvasPaint Float → Json
  | solid color => .object [("paint", .string "solid"), ("color", color.json)]
  | linear start stop stops =>
      .object [("paint", .string "linear"), ("start", start.json), ("end", stop.json),
        ("stops", .list (stops.map CanvasStop.json))]
  | radial center radius stops =>
      .object [("paint", .string "radial"), ("center", center.json), ("radius", .float radius),
        ("stops", .list (stops.map CanvasStop.json))]

/-- How a text looks; a family that is not given is left out. -/
def TextStyle.json (s : TextStyle Float) : Json :=
  .objectOf [("font_size", some (.float s.fontSize)),
    ("font_family", s.fontFamily.map Json.string), ("color", some s.color.json)]

/-- The members of a command. -/
def DrawCommand.members : DrawCommand Float → List (String × Json)
  | save => [("op", .string "save")]
  | restore => [("op", .string "restore")]
  | clip path => [("op", .string "clip"), ("path", path.json)]
  | fill path paint => [("op", .string "fill"), ("path", path.json), ("paint", paint.json)]
  | stroke path paint width =>
      [("op", .string "stroke"), ("path", path.json), ("paint", paint.json),
        ("width", .float width)]
  | text t origin style =>
      [("op", .string "text"), ("text", .string t), ("origin", origin.json),
        ("style", style.json)]
  | image href rect =>
      [("op", .string "image"), ("href", .string href.text), ("rect", rect.json)]
  | field name rect =>
      [("op", .string "field"), ("name", .string name), ("rect", rect.json)]

/-- A command. -/
def DrawCommand.json (c : DrawCommand Float) : Json := .object c.members

/-- What is said about a drawing. -/
def DrawReport.json (r : DrawReport) : Json :=
  .object [("diagnostics", r.diagnostics.json), ("drawn", .count r.drawn),
    ("skipped", .count r.skipped)]

/-- The name of an error's kind. -/
def DrawError.kind {α : Type} : DrawError α → String
  | unusable _ => "ErrorPattern"
  | invalidTarget _ _ => "InvalidTarget"
  | evaluation _ _ => "Evaluation"

/-- An error of drawing. -/
def DrawError.json (e : DrawError Float) : Json := problemJson e.kind e.message

/-- What comes of a drawing. -/
def DrawOutcome.json (o : DrawOutcome Float) : Json :=
  .object [("commands", .list (o.commands.map DrawCommand.json)),
    ("report", match o.report with
      | .ok r => r.json
      | .error e => e.json)]

end PatternMarkup
