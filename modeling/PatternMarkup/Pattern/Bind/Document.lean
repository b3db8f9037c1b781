import PatternMarkup.Files.Store
import PatternMarkup.Pattern.Bind.Pattern
/-!
Reading a document: a library of patterns or one pattern. Whatever is never read is reported at
the end, so nothing in a document is ignored in silence.
-/

namespace PatternMarkup

open Binder

/-- How a document is bound. -/
structure BindOptions where
  /-- The name of the library of a single pattern. -/
  library : Option String := none
  /-- The file of the document, which names the library if nothing else does. -/
  path : Option FilePath := none
  /-- The folder that paths of images are relative to. -/
  sourceFolder : Option FilePath := none
  reportUnused : Bool := true
  keepComments : Bool := false
deriving Inhabited

/-- The name of the library of a document that has none. -/
def BindOptions.libraryName (o : BindOptions) : String :=
  (o.library.or (o.path.bind FilePath.stem?)).getD "default"

/-! ### Ids -/

/-- The attributes that give ids, in the order of the elements. -/
def idAttributes (arena : Arena) : List Attribute :=
  arena.nodes.toList.filterMap fun n => n.element?.bind (·.attribute? "id")

/-- Reads the ids of a document; the first element of an id keeps it. -/
def collectIds (ids : List (String × NodeId)) :
    List Attribute → Binder (List (String × NodeId))
  | [] => return ids
  | a :: rest => do
      mark (·.markAttribute a)
      let name := trimText a.value
      if ids.any (·.1 == name) then
        error a.valueSpan ("duplicate id '" ++ name ++ "'")
        collectIds ids rest
      else collectIds (ids ++ [(name, a.owner)]) rest

variable {α : Type} [Number α]

/-! ### Libraries -/

/-- Reads the name of a library. -/
def bindLibraryName (o : BindOptions) (e : Element) : Binder String := do
  match (← attributeText? e "name").map trimText with
  | some name =>
      if name = "" then
        error e.nameSpan "<library> needs a 'name' attribute"
        return o.libraryName
      else return name
  | none =>
      error e.nameSpan "<library> needs a 'name' attribute"
      return o.libraryName

/-- Reports a pattern whose name is taken by a usable one before it. -/
def reportDuplicate (names : List String) (e : Element) (p : Pattern α) : Binder Unit := do
  if !p.isError && names.contains p.name then
    let span := ((e.attribute? "name").map (·.valueSpan)).getD p.span
    error span ("pattern '" ++ p.name ++ "' is already defined")

/-- Reads the elements of a library. `names` are those of the usable patterns before. -/
def bindEntries (index : DocumentIndex) (library : String) (names : List String) :
    List (Tree × Element × Tag) → Binder (List (Pattern α))
  | [] => return []
  | (tree, e, tag) :: rest => do
      match tag with
      | .pattern =>
          let p ← bindPattern index library tree e
          reportDuplicate names e p
          let names := if p.isError then names else p.name :: names
          return p :: (← bindEntries index library names rest)
      | .defs => markNode tree
      | .desc => markTree tree
      | .title => markTree tree
      | .paint _ => pure ()
      | .unknown name => rejectUnknown tree name
      | _ => reject tree ("<" ++ e.name ++ "> is not allowed directly in a library")
      bindEntries index library names rest

/-- Reads the outermost element of a document. -/
def bindRoot (index : DocumentIndex) (o : BindOptions) (tree : Tree) :
    Binder (List (Pattern α)) := do
  match tree.element? with
  | some (e, .library) =>
      markNode tree
      let library ← bindLibraryName o e
      bindEntries index library [] (Tree.elements tree.children)
  | some (e, .pattern) => return [← bindPattern index o.libraryName tree e]
  | found =>
      let name := (found.map (·.1.name)).getD ""
      reject tree ("expected <library> or <pattern> as the root, found <" ++ name ++ ">")
      return []

/-! ### Documents -/

/-- Reads the patterns of a document. -/
def bindPatterns (o : BindOptions) (doc : Document) : Binder (List (Pattern α)) := do
  let ids ← collectIds [] (idAttributes doc.arena)
  match doc.root with
  | some root => bindRoot ⟨ids, o.sourceFolder⟩ o (doc.arena.tree root)
  | none =>
      error Span.origin "document has no root element"
      return []

/-- Binds a document. -/
def Document.bind (doc : Document) (o : BindOptions) : BoundDocument α :=
  let start : DocumentReading := { arena := doc.arena, diagnostics := doc.diagnostics }
  let (patterns, r) := (bindPatterns o doc).run start
  let document := { doc with arena := r.arena }
  let unused := if o.reportUnused then r.usage.unused document else []
  ⟨patterns, r.diagnostics.pushAll unused, r.identity, document⟩

/-- Reads and binds a markup text. -/
def bindSource (source : String) (o : BindOptions) : BoundDocument α :=
  (Document.ofSource source o.keepComments).bind o

/-- The options for a file: its path and its folder, unless they are given. -/
def BindOptions.forFile (o : BindOptions) (path : FilePath) : BindOptions :=
  { o with
    path := some (o.path.getD path)
    sourceFolder := o.sourceFolder.or path.parent? }

/-- Reads and binds a file; only reading can fail. -/
def bindFile (store : FileStore) (path : FilePath) (o : BindOptions) :
    Except BindError (BoundDocument α) :=
  match store.read path with
  | .ok source => .ok (bindSource source (o.forFile path))
  | .error e => .error (.source e.message)

end PatternMarkup
