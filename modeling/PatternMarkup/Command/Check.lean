import PatternMarkup.Command.Outcome
/-!
Reporting on files: each is named with a mark for what was found in it, and the numbers of
patterns, errors and warnings follow.
-/

namespace PatternMarkup

variable {m : Type → Type} [Monad m]

/-- Reads the wildcards of the settings. -/
def readWildcards : List String → Except CommandError (List Glob)
  | [] => .ok []
  | text :: rest => do
      let glob ← (Glob.read text).mapError (CommandError.wildcard text)
      return glob :: (← readWildcards rest)

/-- The files of a path: the file itself, or those below a folder that a wildcard covers. -/
def filesOf (files : FileAccess m) (globs : List Glob) (path : FilePath) :
    m (Except CommandError (List FilePath)) := do
  match ← files.kind? path with
  | some .file => return .ok [path]
  | none => return .error (.missingPath path)
  | some .folder =>
      let found := (← files.filesBelow path).filter fun f => globs.any (·.covers f.text)
      return .ok (found.map path.join)

/-- The files of several paths, in order. -/
def filesOfAll (files : FileAccess m) (globs : List Glob) :
    List FilePath → m (Except CommandError (List FilePath))
  | [] => return .ok []
  | path :: rest => do
      match ← filesOf files globs path with
      | .error e => return .error e
      | .ok found =>
          match ← filesOfAll files globs rest with
          | .error e => return .error e
          | .ok more => return .ok (found ++ more)

/-- What has been found in files so far. -/
structure CheckTally where
  patterns : Nat := 0
  errors : Nat := 0
  warnings : Nat := 0
  lines : List String := []
  notes : List String := []
deriving Inhabited

namespace CheckTally

/-- The mark of a file with so many errors and warnings. -/
def mark (errors warnings : Nat) : String :=
  if 0 < errors then "✗" else if 0 < warnings then "!" else "✓"

/-- Adds a file. A file without reports is not named if only the others are asked for. -/
def add (t : CheckTally) (quiet : Bool) (path : FilePath) (d : BoundDocument Float) :
    CheckTally :=
  let errors := d.diagnostics.errorCount
  let warnings := d.diagnostics.size - errors
  let named := !quiet || 0 < errors || 0 < warnings
  { patterns := t.patterns + d.patterns.countP (!·.isError)
    errors := t.errors + errors
    warnings := t.warnings + warnings
    lines := t.lines ++ (if named then [mark errors warnings ++ " " ++ path.text] else [])
    notes := t.notes ++ noteLines path d.diagnostics }

/-- The lines about all files. -/
def summary (t : CheckTally) (count : Nat) : List String :=
  ["", "✨ Done Checked " ++ toString count ++ " files, " ++ toString t.patterns ++ " patterns"] ++
    (if 0 < t.errors then ["   Errors: " ++ toString t.errors] else []) ++
    (if 0 < t.warnings then ["   Warnings: " ++ toString t.warnings] else []) ++
    (if t.errors = 0 ∧ t.warnings = 0 then ["   ✓ No issues found!"] else [])

end CheckTally

/-- Reports on files one after another, until one cannot be read. -/
def checkEach (files : FileAccess m) (o : BindOptions) (quiet : Bool) (t : CheckTally) :
    List FilePath → m (CheckTally × Option CommandError)
  | [] => return (t, none)
  | path :: rest => do
      match ← loadFile files o path with
      | .error e => return (t, some e)
      | .ok d => checkEach files o quiet (t.add quiet path d) rest

/-- Reports on files. -/
def checkFiles (files : FileAccess m) (o : BindOptions) (quiet : Bool) (paths : List FilePath) :
    m CommandOutcome := do
  let (t, error) ← checkEach files o quiet {} paths
  let heading := ["🔍 Checking " ++ toString paths.length ++ " files", ""]
  let lines := heading ++ t.lines ++ (if error.isSome then [] else t.summary paths.length)
  return ⟨textOfLines lines, t.notes, 0 < t.errors, error⟩

/-- Reports on the files of paths, or on those of the folder of the settings. -/
def check (files : FileAccess m) (folder : FilePath) (s : Settings) (paths : List FilePath)
    (noUnused quiet : Bool) : m CommandOutcome := do
  let roots := if paths.isEmpty then [folder.join ⟨s.sourceFolder⟩] else paths
  match readWildcards s.wildcards with
  | .error e => return .ofError e
  | .ok globs =>
      match ← filesOfAll files globs roots with
      | .error e => return .ofError e
      | .ok [] => return { output := "⚠️  No .stencil files found\n" }
      | .ok found =>
          let o := s.bindOptions
          checkFiles files { o with reportUnused := o.reportUnused && !noUnused } quiet found

end PatternMarkup
