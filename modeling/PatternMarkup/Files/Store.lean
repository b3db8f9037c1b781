import PatternMarkup.Files.Path
/-!
Text files kept in memory, each under its path. Paths with the same components name the same
file.
-/

namespace PatternMarkup

/-- What can go wrong with a file. -/
inductive FileError where
  | notFound (path : FilePath)
  /-- The system refused to read the file, for the reason given. -/
  | unreadable (reason : String)
deriving Repr, Inhabited

/-- What a report says about the error. -/
def FileError.message : FileError → String
  | notFound path => "File not found: " ++ path.text
  | unreadable reason => "IO error: " ++ reason

/-- Files and their contents, in the order in which they were first added. -/
structure FileStore where
  files : List (FilePath × String) := []
deriving Inhabited

namespace FileStore

/-- Replaces the contents of the file of the given path, or adds it at the end. -/
def addTo (path : FilePath) (contents : String) :
    List (FilePath × String) → List (FilePath × String)
  | [] => [(path, contents)]
  | (key, old) :: rest =>
      if key == path then (key, contents) :: rest else (key, old) :: addTo path contents rest

/-- Adds a file or replaces its contents. -/
def add (store : FileStore) (path : FilePath) (contents : String) : FileStore :=
  ⟨addTo path contents store.files⟩

/-- The number of files. -/
def size (store : FileStore) : Nat := store.files.length

/-- The contents of a file, if there is one. -/
def contents? (store : FileStore) (path : FilePath) : Option String :=
  (store.files.find? (·.1 == path)).map (·.2)

/-- Whether there is a file of the given path. -/
def contains (store : FileStore) (path : FilePath) : Bool := (store.contents? path).isSome

/-- Reads a file. -/
def read (store : FileStore) (path : FilePath) : Except FileError String :=
  match store.contents? path with
  | some contents => .ok contents
  | none => .error (.notFound path)

end FileStore

end PatternMarkup
