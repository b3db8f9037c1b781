import PatternMarkup.Command.Check
import PatternMarkup.Exchange.Geometry
/-!
Running a command in a folder.
-/

namespace PatternMarkup

/-- The size at which a pattern is drawn if nothing says another one. -/
def usualSize : Size Float := ⟨100, 100⟩

/-- How wide a character is, in type sizes. -/
def usualAdvance : Float := 0.6

/-- Lays a sliced rectangle out. -/
def sliceOutcome (reference : Size Float) (xs ys : List Float) (target : Rect Float)
    (point : Option (Point Float)) (compact : Bool) : CommandOutcome :=
  match SliceValues.make reference xs ys with
  | .error e => .ofError (.slice e)
  | .ok values =>
      let s := SliceScaling.compute values target
      { output := jsonOutput compact (.objectOf [("scaling", some s.json),
          ("point", point.map fun p => (s.transform p).json)]) }

/-- Shows the patterns of a document, or one of them. -/
def dumpOutcome (path : FilePath) (d : BoundDocument Float) (name : Option String)
    (compact : Bool) : CommandOutcome :=
  let notes := noteLines path d.diagnostics
  match name.map d.pattern with
  | some (.error e) => { notes, error := some (.bind e) }
  | some (.ok p) => { output := jsonOutput compact p.json, notes }
  | none => { output := jsonOutput compact (.object d.members), notes }

/-- The instance that attributes describe; without any it is that of the examples. -/
def Pattern.instanceOf (p : Pattern Float) (attributes_ : List (String × String)) :
    Instance Float :=
  if attributes_.isEmpty then p.exampleInstance
  else attributes_.foldl (fun i (name, value) => i.withAttribute name value) {}

/-- Draws a pattern of a document. -/
def renderOutcome (path : FilePath) (d : BoundDocument Float) (name : String)
    (size : Option (Size Float)) (attributes_ : List (String × String)) (compact : Bool) :
    CommandOutcome :=
  let notes := noteLines path d.diagnostics
  match d.pattern name with
  | .error e => { notes, error := some (.bind e) }
  | .ok p =>
      let size := (size.or (p.content.bind (·.exampleSize))).getD usualSize
      let target := Rect.ofSize size
      let drawing := p.draw (.monospace usualAdvance []) (p.instanceOf attributes_) target
      match drawing.report with
      | .error e => { notes, error := some (.draw e) }
      | .ok report =>
          { output := jsonOutput compact (.object [("pattern", .string p.qualifiedName),
              ("target", target.json), ("drawn", .count report.drawn),
              ("skipped", .count report.skipped),
              ("commands", .list (drawing.commands.map DrawCommand.json))])
            notes := notes ++ noteLines path report.diagnostics }

variable {m : Type → Type} [Monad m]

/-- Continues with the document of a file. -/
def withFile (files : FileAccess m) (s : Settings) (path : FilePath)
    (next : BoundDocument Float → CommandOutcome) : m CommandOutcome := do
  match ← loadFile files s.bindOptions path with
  | .ok d => return next d
  | .error e => return .ofError e

/-- Continues with the settings of a folder. -/
def withSettings (files : FileAccess m) (folder : FilePath)
    (next : Settings → m CommandOutcome) : m CommandOutcome := do
  match ← Settings.load files folder with
  | .ok s => next s
  | .error message => return .ofError (.settings message)

/-- Runs a command in a folder. -/
def Request.run (files : FileAccess m) (folder : FilePath) : Request → m CommandOutcome
  | .check paths noUnused quiet =>
      withSettings files folder fun s =>
        PatternMarkup.check files folder s paths noUnused quiet
  | .dump path pattern compact =>
      withSettings files folder fun s =>
        withFile files s path fun d => dumpOutcome path d pattern compact
  | .slice reference xs ys target point compact =>
      return sliceOutcome reference xs ys target point compact
  | .render path pattern size attributes_ compact =>
      withSettings files folder fun s =>
        withFile files s path fun d => renderOutcome path d pattern size attributes_ compact
  | .explain lines => return { output := textOfLines lines }

end PatternMarkup
