import PatternMarkup.Command.Request
import PatternMarkup.Command.Settings
import PatternMarkup.Drawing.Pattern
import PatternMarkup.Exchange.Drawing
import PatternMarkup.Exchange.Pattern
import PatternMarkup.Files.Glob
/-!
What the commands answer. A command that cannot do its task fails with a cause; what it has
found out before that is part of its answer.
-/

namespace PatternMarkup

/-- Why a command cannot do its task. -/
inductive CommandError where
  | settings (message : String)
  | wildcard (text : String) (error : GlobError)
  | missingPath (path : FilePath)
  | file (error : FileError)
  | bind (error : BindError)
  | slice (error : SliceError Float)
  | draw (error : DrawError Float)
deriving Inhabited

/-- What is said about the error. -/
def CommandError.message : CommandError → String
  | settings message => message
  | wildcard text error => "Invalid include pattern '" ++ text ++ "': " ++ error.message
  | missingPath path => "Input path does not exist: " ++ path.text
  | file error => error.message
  | bind error => error.message
  | slice error => error.message
  | draw error => error.message

/-- What a command leaves behind. -/
structure CommandOutcome where
  /-- The answer. -/
  output : String := ""
  /-- What is said beside the answer, line by line. -/
  notes : List String := []
  /-- Whether the documents have errors that make the command a failure. -/
  foundErrors : Bool := false
  error : Option CommandError := none
deriving Inhabited

namespace CommandOutcome

/-- The outcome of a command that fails before it says anything. -/
def ofError (e : CommandError) : CommandOutcome := { error := some e }

/-- The number with which the program ends. -/
def exitCode (o : CommandOutcome) : Nat := if o.foundErrors || o.error.isSome then 1 else 0

end CommandOutcome

/-- The number with which the program ends if the command line asks for nothing it can do. -/
def usageExitCode : Nat := 2

/-- Lines as a text. -/
def textOfLines (lines : List String) : String := String.join (lines.map (· ++ "\n"))

/-- A JSON value as an answer. -/
def jsonOutput (compact : Bool) (j : Json) : String :=
  (if compact then j.compact else j.pretty) ++ "\n"

/-- The reports about a file, line by line. -/
def noteLines (path : FilePath) (ds : Diagnostics) : List String :=
  ds.items.map fun d => path.text ++ ":" ++ d.text

/-- How a file is bound under some settings. -/
def Settings.bindOptions (s : Settings) : BindOptions :=
  { keepComments := s.keepComments, reportUnused := s.reportUnused }

variable {m : Type → Type} [Monad m]

/-- Reads and binds a file. -/
def loadFile (files : FileAccess m) (o : BindOptions) (path : FilePath) :
    m (Except CommandError (BoundDocument Float)) := do
  match ← files.read path with
  | .ok source =>
      return .ok (bindSource source { o with path := some path, sourceFolder := path.parent? })
  | .error e => return .error (.file e)

end PatternMarkup
