import PatternMarkup.Pattern.Basic
import PatternMarkup.Pattern.Canvas
import PatternMarkup.Pattern.Reference
import PatternMarkup.Pattern.Tag
import PatternMarkup.Pattern.Usage
/-!
The steps of binding a document. A step may report, record what it reads, add copies to the
tree, and number the figures it finds; it never fails.
-/

namespace PatternMarkup

/-- What has been found while a document is bound. -/
structure DocumentReading where
  arena : Arena
  diagnostics : Diagnostics := .empty
  usage : Usage := {}
  identity : IdentityMap := {}
  /-- The areas of the current pattern and where their roles are written. -/
  areas : List (String × Span) := []
  /-- The number of figures entered. -/
  figures : Nat := 0
deriving Inhabited

/-- A step of binding a document. -/
abbrev Binder (β : Type) := StateM DocumentReading β

/-- What references and the paths of images are resolved with. -/
structure DocumentIndex where
  /-- The elements of the source that have an id. -/
  ids : List (String × NodeId)
  /-- The folder that paths are relative to. -/
  sourceFolder : Option FilePath
deriving Inhabited

/-- What a figure gets from the figures around it. -/
structure Place (α : Type) where
  scope : Scope α
  style : Style α

namespace Binder

/-! ### Reports -/

/-- Makes a report. -/
def report (d : Diagnostic) : Binder Unit :=
  modify fun r => { r with diagnostics := r.diagnostics.push d }

/-- Reports an error of meaning. -/
def error (span : Span) (message : String) : Binder Unit := report (.error .meaning span message)

/-- Reports an error of meaning with what brought it about. -/
def errorBecause (span : Span) (message cause : String) : Binder Unit :=
  report ((Diagnostic.error .meaning span message).because cause)

/-- Reports something doubtful. -/
def warning (span : Span) (message : String) : Binder Unit :=
  report (.warning .meaning span message)

/-! ### Use of the source -/

/-- Changes the record of what was read. -/
def mark (f : Usage → Usage) : Binder Unit := modify fun r => { r with usage := f r.usage }

/-- Records that a node was read, but not what lies in it. -/
def markNode (tree : Tree) : Binder Unit := mark (·.markSource (tree.content.source tree.id))

/-- Records that a node was read with all that lies in it. -/
def markTree (tree : Tree) : Binder Unit := mark (·.markTree tree)

/-- Whether a node was read. -/
def wasRead (tree : Tree) : Binder Bool := do
  return (← get).usage.nodes.contains (tree.content.source tree.id)

/-- Reports an element that is out of place, with all that lies in it taken as read. -/
def reject (tree : Tree) (message : String) : Binder Unit := do
  error tree.content.span message
  markTree tree

/-- Reports an element of an unknown name. -/
def rejectUnknown (tree : Tree) (name : String) : Binder Unit :=
  reject tree ("unknown element <" ++ name ++ ">")

/-- Reads an attribute. -/
def attribute? (e : Element) (name : String) : Binder (Option Attribute) := do
  match e.attribute? name with
  | some a =>
      mark (·.markAttribute a)
      return some a
  | none => return none

/-- Reads an attribute that has to be there. -/
def requiredAttribute? (e : Element) (name : String) : Binder (Option Attribute) := do
  match ← attribute? e name with
  | some a => return some a
  | none =>
      error e.nameSpan ("<" ++ e.name ++ "> needs a '" ++ name ++ "' attribute")
      return none

/-- Reads the value of an attribute as it is. -/
def attributeText? (e : Element) (name : String) : Binder (Option String) := do
  return (← attribute? e name).map (·.value)

/-- Reads an attribute that switches something on. -/
def flag (e : Element) (name : String) : Binder Bool := do
  match ← attribute? e name with
  | none => return false
  | some a =>
      match trimText a.value with
      | "" => return true
      | "true" => return true
      | "yes" => return true
      | "false" => return false
      | "no" => return false
      | other =>
          error a.valueSpan ("'" ++ name ++ "' must be true or false, found '" ++ other ++ "'")
          return false

/-! ### Figures -/

/-- Numbers the next figure. -/
def nextFigure : Binder FigureId := do
  let r ← get
  set { r with figures := r.figures + 1 }
  return r.figures

/-- Records where a figure comes from. -/
def recordFigure (i : Identification) : Binder Unit :=
  modify fun r => { r with identity := r.identity.record i }

/-- Records an area of the current pattern. -/
def recordArea (role : String) (span : Span) : Binder Unit :=
  modify fun r => { r with areas := r.areas ++ [(role, span)] }

/-! ### References -/

/-- The element that an attribute refers to. -/
def reference? (index : DocumentIndex) (a : Attribute) : Binder (Option NodeId) := do
  match referenceTarget? a.value with
  | none =>
      error a.valueSpan ("'" ++ trimText a.value ++
        "' is not a reference; expected '#id' or 'url(#id)'")
      return none
  | some name =>
      match index.ids.find? (·.1 == name) with
      | some (_, node) => return some node
      | none =>
          error a.valueSpan ("no element has id '" ++ name ++ "'")
          return none

/-- Whether a variable may have a name; if not, that is reported. -/
def acceptsVariable (name : String) (span : Span) : Binder Bool := do
  if !isIdentifier name then
    error span ("'" ++ name ++ "' is not a valid variable name")
    return false
  else if Canvas.isReserved name then
    error span ("'" ++ name ++ "' is reserved by the canvas")
    return false
  else return true

end Binder

namespace Tree

/-- The element at the root, with what it is for. -/
def element? (tree : Tree) : Option (Element × Tag) :=
  tree.content.element?.map fun e => (e, Tag.ofName e.name)

/-- The elements among trees, with what they are for. -/
def elements (trees : List Tree) : List (Tree × Element × Tag) :=
  trees.filterMap fun tree => tree.element?.map fun found => (tree, found)

end Tree

end PatternMarkup
