import PatternMarkup.Files.Access
import PatternMarkup.Json.Reader
/-!
Settings of a folder of patterns, read from a JSON file in it. Members that are missing take
their usual value, and members that are not known are passed over.
-/

namespace PatternMarkup

/-- The settings of a folder. -/
structure Settings where
  /-- The folder that is searched if none is given. -/
  sourceFolder : String := "."
  /-- The wildcards of the files to be found in a folder. -/
  wildcards : List String := ["**/*.stencil"]
  keepComments : Bool := false
  reportUnused : Bool := true
deriving Repr, DecidableEq, Inhabited

namespace Settings

/-- The name of the file of settings. -/
def fileName : String := "stencil.config.json"

/-- The members of the file and what they hold. -/
def shape : JsonShape :=
  .record "Config" [("srcDir", .text), ("include", .list .text), ("keepComments", .truth),
    ("reportUnused", .truth)]

/-- The settings that members of the right shapes give. -/
def ofJson (j : Json) : Settings :=
  let usual : Settings := {}
  { sourceFolder := ((j.member? "srcDir").bind Json.text?).getD usual.sourceFolder
    wildcards := ((j.member? "include").bind Json.texts?).getD usual.wildcards
    keepComments := ((j.member? "keepComments").bind Json.bool?).getD usual.keepComments
    reportUnused := ((j.member? "reportUnused").bind Json.bool?).getD usual.reportUnused }

/-- The settings that a JSON text gives, or what is wrong with it. -/
def read (source : String) : Except String Settings :=
  ((Json.readAs shape source).map ofJson).mapError (JsonFault.message source)

/-- The settings of a folder. -/
def load {m : Type → Type} [Monad m] (files : FileAccess m) (folder : FilePath) :
    m (Except String Settings) := do
  let path := folder.join ⟨fileName⟩
  match ← files.kind? path with
  | none => return .ok {}
  | some _ =>
      match ← files.read path with
      | .ok source => return read source
      | .error (.unreadable reason) => return .error reason
      | .error e => return .error e.message

end Settings

end PatternMarkup
