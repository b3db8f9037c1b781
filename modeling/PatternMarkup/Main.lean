import PatternMarkup.Command.Run
/-!
The command line program: it runs commands on the files of the system and prints what they
answer.
-/

namespace PatternMarkup

/-- What a path of the system names. -/
def systemKind? (path : FilePath) : IO (Option FileKind) := do
  let place := (← IO.currentDir) / path.text
  if ← place.isDir then return some .folder
  else if ← place.pathExists then return some .file
  else return none

/-- Reads a file of the system. -/
def systemRead (path : FilePath) : IO (Except FileError String) := do
  let place := (← IO.currentDir) / path.text
  try
    return .ok (← IO.FS.readFile place)
  catch e =>
    match e with
    | .noFileOrDirectory .. => return .error (.notFound path)
    | e => return .error (.unreadable (toString e))

/-- The files below a folder of the system, by their paths from there on. -/
partial def systemFilesBelow (folder : FilePath) : IO (List FilePath) := do
  let place := (← IO.currentDir) / folder.text
  let names := ((← place.readDir).map (·.fileName)).toList.mergeSort
    fun a b => !decide (b < a)
  let found ← names.mapM fun name => do
    let inner := folder.join ⟨name⟩
    match ← systemKind? inner with
    | some .file => return [FilePath.mk name]
    | some .folder => return (← systemFilesBelow inner).map (FilePath.mk name).join
    | none => return []
  return found.flatten

/-- The files of the system. -/
def systemFiles : FileAccess IO := ⟨systemKind?, systemRead, systemFilesBelow⟩

end PatternMarkup

open PatternMarkup

/-- Runs the command that the words after the program's name ask for. -/
def main (words : List String) : IO UInt32 := do
  match Request.read? words with
  | none =>
      IO.eprint (textOfLines Request.programHelp)
      return UInt32.ofNat usageExitCode
  | some request =>
      let folder := (← IO.currentDir).toString
      let outcome ← request.run systemFiles ⟨folder⟩
      IO.print outcome.output
      outcome.notes.forM fun note => IO.eprintln note
      outcome.error.forM fun e => IO.eprintln ("Error: " ++ e.message)
      return UInt32.ofNat outcome.exitCode
