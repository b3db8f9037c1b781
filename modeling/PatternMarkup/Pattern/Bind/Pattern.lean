import PatternMarkup.Pattern.Bind.Declaration
import PatternMarkup.Pattern.Bind.Figure
/-!
Reading a pattern. Without a name or a kind nothing in it is read; with them it has a body,
whatever else is wrong, and the areas in the body are those its kind asks for, or reports say
which are not.
-/

namespace PatternMarkup

open Binder

variable {α : Type} [Number α]

/-- Reads the text in an element, without the blanks around it; all in the element counts as
read. -/
def innerText (tree : Tree) : Binder String := do
  markTree tree
  let pieces := tree.children.filterMap fun child =>
    match child.content.kind with
    | .text content _ => some content
    | _ => none
  return trimText (String.join pieces)

/-- Reads the first element of a tag as text, unless there is a text already. -/
def firstText (tag : Tag) (known : Option String) :
    List (Tree × Element × Tag) → Binder (Option String)
  | [] => return known
  | (tree, _, found) :: rest => do
      if found = tag ∧ known.isNone then firstText tag (some (← innerText tree)) rest
      else firstText tag known rest

/-! ### Names and kinds -/

/-- What a report lists as missing in a pattern. -/
def missingParts (name : Option String) (kind : Option Attribute) : List String :=
  (if name.isNone then ["'name'"] else []) ++ (if kind.isNone then ["'type'"] else [])

/-- The report of what keeps a pattern from being used, if anything does. -/
def unusableReport? (e : Element) (name : Option String) (written : Option Attribute)
    (kind : Option PatternKind) : Option Diagnostic :=
  let missing := missingParts name written
  if !missing.isEmpty then
    some (.error .meaning e.nameSpan ("<pattern> is missing " ++ " and ".intercalate missing))
  else
    match written, kind with
    | some a, none =>
        some (.error .meaning a.valueSpan ("unknown pattern type '" ++ trimText a.value ++
          "'; expected one of: " ++ ", ".intercalate (PatternKind.all.map (·.name))))
    | _, _ => none

/-- Reports what keeps a pattern from being used. -/
def reportUnusable (e : Element) (name : Option String) (written : Option Attribute)
    (kind : Option PatternKind) : Binder Unit := do
  match unusableReport? e name written kind with
  | some d => report d
  | none => return

/-- Reads the name of a pattern, if it is not blank. -/
def patternName? (e : Element) : Binder (Option String) := do
  return ((← attributeText? e "name").map trimText).filter (· != "")

/-! ### Areas -/

/-- Reports the areas that a kind of pattern does not have, and those that come a second time.
`seen` holds the roles before; the roles of all areas that stay are given back. -/
def checkAreas (kind : PatternKind) (seen : List String) :
    List (String × Span) → Binder (List String)
  | [] => return seen
  | (role, span) :: rest => do
      if !kind.allowsRole role then
        error span ("a " ++ kind.name ++ " pattern has no '" ++ role ++ "' area")
        checkAreas kind seen rest
      else if seen.contains role then
        error span ("area '" ++ role ++ "' is already defined")
        checkAreas kind seen rest
      else checkAreas kind (role :: seen) rest

/-- Reports what is wrong with the areas of a pattern. -/
def checkRoles (kind : PatternKind) (e : Element) : Binder Unit := do
  let areas := (← get).areas
  modify fun r => { r with areas := [] }
  let seen ← checkAreas kind [] areas
  let missing := kind.requiredRoles.filter fun role => !seen.contains role
  unless missing.isEmpty do
    error e.nameSpan (kind.name ++ " pattern is missing areas: " ++ ", ".intercalate missing)

/-! ### Patterns -/

/-- Reads the name and the kind of a pattern, and reports what keeps it from being used. -/
def patternHead (tree : Tree) (e : Element) : Binder (Option String × Option PatternKind) := do
  markNode tree
  let name ← patternName? e
  let written ← attribute? e "type"
  let kind := written.bind fun a => PatternKind.ofName? (trimText a.value)
  reportUnusable e name written kind
  return (name, kind)

/-- Reads what a usable pattern holds besides its body: what it holds with a body, and the place
of that body. -/
def patternParts (tree : Tree) (e : Element) (kind : PatternKind) :
    Binder ((Figure α → PatternContent α) × Place α) := do
  let elements := Tree.elements tree.children
  let arguments ← declaredArguments [] [] elements
  let s := argumentScope arguments
  let validations ← declaredValidations s elements
  let exampleSize ← constant? (α := α) e "example-size"
  let exampleCanvas ← constant? (α := α) e "example-canvas"
  let written ← attributeText? e "description"
  let description ← firstText .desc written elements
  let title ← firstText .title none elements
  modify fun r => { r with areas := [] }
  return (fun body =>
    ⟨kind, description, title, arguments, validations, exampleSize, exampleCanvas, body⟩,
    ⟨s, .initial⟩)

/-- Reads what a usable pattern holds. -/
def patternContent (index : DocumentIndex) (tree : Tree) (e : Element) (kind : PatternKind) :
    Binder (PatternContent α) := do
  let (content, place) ← patternParts tree e kind
  let body ← bindOutermost index .div tree e place
  checkRoles kind e
  return content body

/-- Reads a pattern. -/
def bindPattern (index : DocumentIndex) (library : String) (tree : Tree) (e : Element) :
    Binder (Pattern α) := do
  let before := (← get).diagnostics.size
  let (name, kind) ← patternHead tree e
  let content : Option (PatternContent α) ← do
    match name, kind with
    | some _, some kind => pure (some (← patternContent index tree e kind))
    | _, _ =>
        markTree tree
        pure none
  let reports := (← get).diagnostics.items.drop before
  return ⟨name.getD Pattern.unnamed, library, content, tree.id, tree.content.span, reports⟩

end PatternMarkup
