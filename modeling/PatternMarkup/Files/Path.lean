/-!
Paths of files, as text and as a list of components. Two paths are the same if their components
are; joining works on the text, normalising on the components, and neither looks at any file.
-/

namespace PatternMarkup

/-- The text of a path. -/
structure FilePath where
  text : String
deriving Repr, Inhabited

/-- A part of a path. -/
inductive PathComponent where
  /-- The start of an absolute path. -/
  | root
  /-- A dot at the start of a relative path. -/
  | here
  /-- The directory above. -/
  | up
  | name (text : List Char)
deriving Repr, DecidableEq, Inhabited

/-- The pieces of a text between slashes; there is one more than there are slashes. -/
def splitSlashes : List Char → List (List Char)
  | [] => [[]]
  | c :: rest =>
      if c = '/' then [] :: splitSlashes rest
      else
        match splitSlashes rest with
        | piece :: pieces => (c :: piece) :: pieces
        | [] => [[c]]

namespace PathComponent

/-- The text of a component. -/
def text : PathComponent → List Char
  | root => ['/']
  | here => ['.']
  | up => ['.', '.']
  | name text => text

/-- The component a piece between slashes stands for; empty pieces and dots stand for none. -/
def ofPiece? (piece : List Char) : Option PathComponent :=
  if piece = [] ∨ piece = ['.'] then none
  else if piece = ['.', '.'] then some up
  else some (name piece)

/-- The text of components: names are separated by slashes. -/
def joined : List PathComponent → List Char
  | [] => []
  | [c] => c.text
  | root :: rest => '/' :: joined rest
  | c :: rest => c.text ++ '/' :: joined rest

/-- Adds a component to a path from which dots are removed. A step up takes away the component
before it, be that a step up itself; only above nothing or above the root it stays. -/
def normalStep (path : List PathComponent) (c : PathComponent) : List PathComponent :=
  match c with
  | here => path
  | up =>
      match path.getLast? with
      | none => path ++ [up]
      | some root => path ++ [up]
      | some _ => path.dropLast
  | other => path ++ [other]

/-- The components without dots and without the steps up that undo a component. -/
def normalized (path : List PathComponent) : List PathComponent := path.foldl normalStep []

end PathComponent

namespace FilePath

/-- Whether a path starts at the root. -/
def isAbsolute (p : FilePath) : Bool := ['/'].isPrefixOf p.text.toList

/-- The components of a path. A dot counts only at the start of a relative path. -/
def components (p : FilePath) : List PathComponent :=
  let pieces := splitSlashes p.text.toList
  let names := pieces.filterMap PathComponent.ofPiece?
  match pieces with
  | [] :: _ => if p.isAbsolute then .root :: names else names
  | ['.'] :: _ => .here :: names
  | _ => names

instance : BEq FilePath := ⟨fun p q => p.components == q.components⟩

/-- The path with the given components. -/
def ofComponents (components : List PathComponent) : FilePath :=
  ⟨String.ofList (PathComponent.joined components)⟩

/-- The path `reference` as seen from the directory `base`. -/
def join (base reference : FilePath) : FilePath :=
  if reference.isAbsolute then reference
  else if base.text.isEmpty || base.text.toList.getLast? == some '/' then
    ⟨base.text ++ reference.text⟩
  else ⟨base.text ++ "/" ++ reference.text⟩

/-- The path without dots and without the steps up that undo a component. -/
def normalize (p : FilePath) : FilePath := ofComponents (PathComponent.normalized p.components)

/-- The file that a reference written in a file of the directory `base` means. -/
def resolve (base : Option FilePath) (reference : FilePath) : FilePath :=
  if reference.isAbsolute then reference
  else
    match base with
    | some dir => (dir.join reference).normalize
    | none => reference.normalize

/-- The path without its last component, unless that is the root or missing. -/
def parent? (p : FilePath) : Option FilePath :=
  match p.components.getLast? with
  | none => none
  | some .root => none
  | some _ => some (ofComponents p.components.dropLast)

/-- The last component, if it is a name. -/
def fileName? (p : FilePath) : Option (List Char) :=
  match p.components.getLast? with
  | some (.name text) => some text
  | _ => none

/-- A file name without its extension: up to the last dot that has something before it. -/
def stemOf (name : List Char) : List Char :=
  match name.reverse.dropWhile (· != '.') with
  | _ :: before => if before.isEmpty then name else before.reverse
  | [] => name

/-- The name of the file without its extension. -/
def stem? (p : FilePath) : Option String := p.fileName?.map fun name => String.ofList (stemOf name)

end FilePath

end PatternMarkup
