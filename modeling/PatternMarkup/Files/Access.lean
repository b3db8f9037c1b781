import PatternMarkup.Files.Store
import PatternMarkup.Text.Bytes
/-!
Files as a program sees them: what a path names, the contents of a file, and the files below a
folder. A store of files in memory is seen from a folder in which relative paths start; a path is
followed piece by piece, so that all it leads through has to be there.
-/

namespace PatternMarkup

/-- What a path names. -/
inductive FileKind where
  | file
  | folder
deriving Repr, DecidableEq, Inhabited

/-- How files are seen, with effects of the given kind. -/
structure FileAccess (m : Type → Type) where
  /-- What a path names, if it names anything. -/
  kind? : FilePath → m (Option FileKind)
  /-- The contents of a file. -/
  read : FilePath → m (Except FileError String)
  /-- The files below a folder, by their paths from there on. What lies in a folder follows the
  names of what lies beside it. -/
  filesBelow : FilePath → m (List FilePath)

/-- Why a path leads nowhere. -/
inductive PathProblem where
  | missing
  /-- The path goes on after a file. -/
  | notFolder
  /-- The path or a name in it is longer than any can be. -/
  | tooLong
deriving Repr, DecidableEq, Inhabited

/-- What reading a path that leads nowhere fails with. -/
def PathProblem.fileError (path : FilePath) : PathProblem → FileError
  | missing => .notFound path
  | notFolder => .unreadable "Not a directory (os error 20)"
  | tooLong => .unreadable "File name too long (os error 36)"

/-- The number of bytes that a name may have. -/
def longestName : Nat := 255

/-- The number of bytes that a path may have. -/
def longestPath : Nat := 4095

/-- What follows the components of a folder in those of a path. -/
def componentsBelow? : (folder path : List PathComponent) → Option (List PathComponent)
  | [], path => some path
  | _ :: _, [] => none
  | c :: folder, d :: path => if c = d then componentsBelow? folder path else none

/-- Files by their places, as seen from a folder in which relative paths start. -/
structure FileTree where
  start : List PathComponent
  files : List (List PathComponent × String)
deriving Inhabited

namespace FileTree

/-- The components of the files below a folder, from there on. -/
def below (tree : FileTree) (folder : List PathComponent) : List (List PathComponent) :=
  (tree.files.filterMap fun (place, _) => componentsBelow? folder place).filter (!·.isEmpty)

/-- What is at a place. The folder where paths start is there even if it is empty, and so is
what it lies in. -/
def kindAt? (tree : FileTree) (place : List PathComponent) : Option FileKind :=
  if tree.files.any (·.1 == place) then some .file
  else if (componentsBelow? place tree.start).isSome || !(tree.below place).isEmpty then
    some .folder
  else none

/-- The place that one piece of a path leads to from a folder. -/
def enter (folder : List PathComponent) (piece : List Char) :
    Except PathProblem (List PathComponent) :=
  match PathComponent.ofPiece? piece with
  | none => .ok folder
  | some .up => .ok (if folder.length ≤ 1 then folder else folder.dropLast)
  | some c => if longestName < byteLength piece then .error .tooLong else .ok (folder ++ [c])

/-- The place that the pieces of a path lead to, and what is there. Every piece starts from a
folder, also one that stays in it. -/
def follow (tree : FileTree) (place : List PathComponent) :
    List (List Char) → Except PathProblem (List PathComponent × FileKind)
  | [] =>
      match tree.kindAt? place with
      | some kind => .ok (place, kind)
      | none => .error .missing
  | piece :: rest =>
      match tree.kindAt? place with
      | some .folder => do tree.follow (← enter place piece) rest
      | some .file => .error .notFolder
      | none => .error .missing

/-- The place of a path, and what is there. -/
def locate (tree : FileTree) (path : FilePath) :
    Except PathProblem (List PathComponent × FileKind) :=
  if path.text = "" then .error .missing
  else if longestPath < path.text.utf8ByteSize then .error .tooLong
  else
    tree.follow (if path.isAbsolute then [.root] else tree.start)
      (splitSlashes path.text.toList)

/-- Reads a file. -/
def read (tree : FileTree) (path : FilePath) : Except FileError String :=
  match tree.locate path with
  | .error problem => .error (problem.fileError path)
  | .ok (_, .folder) => .error (.unreadable "Is a directory (os error 21)")
  | .ok (place, .file) =>
      match tree.files.find? (·.1 == place) with
      | some (_, contents) => .ok contents
      | none => .error (.notFound path)

/-- The order of paths: name by name, and a folder before what lies in it. -/
def comesBefore (p q : List (List Char)) : Bool := !decide (q < p)

/-- The paths of the files below a folder, from there on. -/
def filesBelow (tree : FileTree) (folder : FilePath) : List FilePath :=
  match tree.locate folder with
  | .error _ => []
  | .ok (place, _) =>
      let found := (tree.below place).map (·.map PathComponent.text)
      (found.mergeSort comesBefore).map fun names =>
        FilePath.ofComponents (names.map PathComponent.name)

end FileTree

/-- The files of a store by their places. -/
def FileStore.tree (store : FileStore) (start : FilePath) : FileTree :=
  ⟨start.normalize.components,
    store.files.map fun (path, contents) => (path.normalize.components, contents)⟩

/-- The files of a store as seen from a folder. -/
def FileStore.access (store : FileStore) (start : FilePath) : FileAccess Id :=
  let tree := store.tree start
  { kind? := fun path => (tree.locate path).toOption.map (·.2)
    read := tree.read
    filesBelow := tree.filesBelow }

end PatternMarkup
