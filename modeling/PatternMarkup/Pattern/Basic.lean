import PatternMarkup.Markup.Document
import PatternMarkup.Pattern.Argument
import PatternMarkup.Pattern.Figure
/-!
Patterns, and the documents that define them. A pattern whose name or kind is missing keeps its
place with nothing in it. Each kind of patterns says which areas a pattern has to offer and which
it may.
-/

namespace PatternMarkup

/-- The kind of a pattern. -/
inductive PatternKind where
  | widget
  | box
  | labelledBox
  | titledBox
  | entriedShape
  | bar
  | usageBar
  | detail
deriving Repr, DecidableEq, Inhabited

namespace PatternKind

/-- All kinds. -/
def all : List PatternKind :=
  [widget, box, labelledBox, titledBox, entriedShape, bar, usageBar, detail]

/-- The name of a kind. -/
def name : PatternKind → String
  | widget => "widget"
  | box => "box"
  | labelledBox => "labelled-box"
  | titledBox => "titled-box"
  | entriedShape => "entried-shape"
  | bar => "bar"
  | usageBar => "usage-bar"
  | detail => "detail"

/-- The kind of a name. -/
def ofName? (name : String) : Option PatternKind := all.find? (·.name == name)

/-- The areas a pattern has to offer. -/
def requiredRoles : PatternKind → List String
  | widget => []
  | box => []
  | labelledBox => ["label", "remaining"]
  | titledBox => ["label", "remaining"]
  | usageBar => ["label", "remaining"]
  | entriedShape => ["entry1", "entry2"]
  | bar => ["remaining"]
  | detail => ["label"]

/-- The areas a pattern may offer besides. -/
def optionalRoles : PatternKind → List String
  | box => ["remaining"]
  | entriedShape => ["remaining"]
  | detail => ["remaining"]
  | titledBox => ["icon"]
  | _ => []

/-- Whether a pattern may offer an area. -/
def allowsRole (kind : PatternKind) (role : String) : Bool :=
  kind.requiredRoles.contains role || kind.optionalRoles.contains role

end PatternKind

/-- The name of a pattern with that of its library. -/
def qualifiedName (library name : String) : String := library ++ "." ++ name

/-- What a usable pattern holds. -/
structure PatternContent (α : Type) where
  kind : PatternKind
  description : Option String
  title : Option String
  arguments : List (Argument α)
  validations : List (Validation α)
  exampleSize : Option (Size α)
  exampleCanvas : Option (Size α)
  body : Figure α

/-- A pattern of a document. -/
structure Pattern (α : Type) where
  name : String
  library : String
  /-- Nothing if the pattern cannot be used. -/
  content : Option (PatternContent α)
  node : NodeId
  span : Span
  /-- The reports made while the pattern was bound. -/
  diagnostics : List Diagnostic

namespace Pattern

variable {α : Type}

/-- The name with that of the library. -/
def qualifiedName (p : Pattern α) : String := PatternMarkup.qualifiedName p.library p.name

/-- Whether the pattern cannot be used. -/
def isError (p : Pattern α) : Bool := p.content.isNone

/-- The arguments of a pattern; one that cannot be used has none. -/
def arguments (p : Pattern α) : List (Argument α) := (p.content.map (·.arguments)).getD []

/-- The validations of a pattern; one that cannot be used has none. -/
def validations (p : Pattern α) : List (Validation α) := (p.content.map (·.validations)).getD []

/-- The name of a pattern that has none. -/
def unnamed : String := "<unnamed>"

end Pattern

/-- Why a document cannot be bound, or a pattern not be found in it. -/
inductive BindError where
  | source (message : String)
  | patternNotFound (name : String)
deriving Repr, DecidableEq, Inhabited

/-- What a report says about the error. -/
def BindError.message : BindError → String
  | source message => "failed to read pattern source: " ++ message
  | patternNotFound name => "pattern '" ++ name ++ "' not found"

/-- A document with its patterns and all reports about it. -/
structure BoundDocument (α : Type) where
  patterns : List (Pattern α)
  diagnostics : Diagnostics
  identity : IdentityMap
  /-- The tree of the document, with the copies made while it was bound. -/
  document : Document

/-- The pattern of a qualified name, or the first of a plain name. -/
def BoundDocument.pattern {α : Type} (d : BoundDocument α) (name : String) :
    Except BindError (Pattern α) :=
  match (d.patterns.find? (·.qualifiedName == name)).or (d.patterns.find? (·.name == name)) with
  | some p => .ok p
  | none => .error (.patternNotFound name)

end PatternMarkup
