import PatternMarkup.Formula.Template
import PatternMarkup.Geometry.PathReader
import PatternMarkup.Pattern.Bind.Value
/-!
Reading what a figure is: its frame, its shape, its text, its image or its slot.
-/

namespace PatternMarkup

open Binder

variable {α : Type} [Number α]

/-- The expression zero. -/
def zeroFormula : Expression α α := .constant Number.zero

/-- The extent of the figure around along an axis. -/
def extentFormula (axis : Axis) : Expression α α :=
  .formula ⟨.name axis.extentName ⟨0, 0⟩, .scalar⟩

/-- Reads a coordinate that may be missing. -/
def coordinate? (e : Element) (name : String) (s : Scope α) (axis : Axis) :
    Binder (Option (Expression α α)) :=
  typed? e name s (some axis)

/-- Reads a coordinate that is zero if it is missing. -/
def coordinate (e : Element) (name : String) (s : Scope α) (axis : Axis) :
    Binder (Expression α α) :=
  typedOr e name s (some axis) zeroFormula

/-- Reads a coordinate that has to be there. -/
def requiredCoordinate (e : Element) (name : String) (s : Scope α) (axis : Axis) :
    Binder (Expression α α) :=
  required e name s (some axis) zeroFormula

/-! ### Frames -/

/-- The fault of a slicing whose parts are all known. -/
def SliceFormulas.fault? (f : SliceFormulas α) : Option (SliceError α) :=
  match f.reference.constant?, f.xs.constant?, f.ys.constant? with
  | some reference, some xs, some ys =>
      match SliceValues.make reference xs ys with
      | .ok _ => none
      | .error fault => some fault
  | _, _, _ => none

/-- Reads how a figure's inside is sliced. -/
def slicing? (e : Element) (s : Scope α) : Binder (Option (SliceFormulas α)) := do
  let xs : Option (Expression α (List α)) ← typed? e "xs" s none
  let ys : Option (Expression α (List α)) ← typed? e "ys" s none
  match ← attribute? e "reference" with
  | none =>
      if xs.isSome || ys.isSome then error e.nameSpan "'xs' and 'ys' need a 'reference' size"
      return none
  | some a =>
      match ← a.typed? s none with
      | none => return none
      | some reference =>
          let found : SliceFormulas α :=
            ⟨reference, xs.getD (.constant []), ys.getD (.constant [])⟩
          match found.fault? with
          | none => return some found
          | some fault =>
              errorBecause a.valueSpan "invalid n-slice cuts" fault.message
              return none

/-- Reads the place of a figure in the one around it. -/
def figureFrame (e : Element) (s : Scope α) : Binder (FigureFrame α) := do
  let x ← coordinate? e "x" s .x
  let y ← coordinate? e "y" s .y
  let width ← coordinate? e "width" s .x
  let height ← coordinate? e "height" s .y
  let margin ← typed? e "margin" s none
  return { x, y, width, height, margin, slicing := ← slicing? e s }

/-! ### Shapes -/

/-- Reads the corners of a shape. A list of known numbers has to be of even length. -/
def corners (e : Element) (s : Scope α) (closed : Bool) : Binder (Shape α) := do
  let points : Expression α (List α) ← required e "points" s none (.constant [])
  match points.constant?, e.attribute? "points" with
  | some xs, some a =>
      if xs.length % 2 ≠ 0 then
        error a.valueSpan
          ("points need x and y pairs, found " ++ toString xs.length ++ " numbers")
  | _, _ => pure ()
  return .corners points closed

/-- Reads the path of a shape; one that is wrong is empty. -/
def pathData (e : Element) : Binder (Path α) := do
  match ← requiredAttribute? e "d" with
  | none => return Path.empty
  | some a =>
      match Path.read a.value with
      | .ok path => return path
      | .error fault =>
          let offset := fault.offset
          errorBecause (a.subSpan ⟨offset, offset + 1⟩) "invalid path data" fault.message
          return Path.empty

/-- Reads a shape. -/
def figureShape (kind : ShapeKind) (e : Element) (s : Scope α) : Binder (Shape α) := do
  match kind with
  | .rect =>
      let x ← coordinate e "x" s .x
      let y ← coordinate e "y" s .y
      let width ← typedOr e "width" s (some .x) (extentFormula .x)
      let height ← typedOr e "height" s (some .y) (extentFormula .y)
      let rx ← coordinate? e "rx" s .x
      let ry ← coordinate? e "ry" s .y
      return .rect x y width height rx ry
  | .ellipse =>
      let cx ← coordinate e "cx" s .x
      let cy ← coordinate e "cy" s .y
      let rx ← requiredCoordinate e "rx" s .x
      let ry ← requiredCoordinate e "ry" s .y
      return .ellipse cx cy rx ry
  | .circle =>
      let cx ← coordinate e "cx" s .x
      let cy ← coordinate e "cy" s .y
      let r ← requiredCoordinate e "r" s .x
      return .circle cx cy r
  | .line =>
      let x1 ← coordinate e "x1" s .x
      let y1 ← coordinate e "y1" s .y
      let x2 ← coordinate e "x2" s .x
      let y2 ← coordinate e "y2" s .y
      return .line x1 y1 x2 y2
  | .polyline => corners e s false
  | .polygon => corners e s true
  | .path => return .path (← pathData e)

/-! ### Text, images and slots -/

/-- Reads which end of a text its position stands for. -/
def textAnchor (e : Element) : Binder TextAnchor := do
  match ← attribute? e "anchor" with
  | none => return .start
  | some a =>
      let name := trimText a.value
      match TextAnchor.ofName? name with
      | some anchor => return anchor
      | none =>
          error a.valueSpan
            ("unknown anchor '" ++ name ++ "'; expected start, middle or end")
          return .start

/-- Reads the text among the children of an element, and the span it covers together. -/
def childText (text : String) (span : Option Span) : List Tree → Binder (String × Option Span)
  | [] => return (text, span)
  | tree :: rest => do
      let here := tree.content.span
      match tree.content.kind with
      | .text content _ =>
          markNode tree
          childText (text ++ content) (some ((span.map (·.join here)).getD here)) rest
      | .element inner =>
          reject tree ("<" ++ inner.name ++ "> cannot appear inside <text>")
          childText text span rest
      | _ => childText text span rest

/-- Reads the content of a text. Text that cannot be read is empty. -/
def runContent (e : Element) (children : List Tree) (s : Scope α) :
    Binder (Expression α String) := do
  let (text, span) ← childText "" none children
  let span := span.getD e.nameSpan
  match (Fragment.ofString (trimText text) 0).template s with
  | .error fault =>
      errorBecause span "invalid text" fault.message
      return .constant ""
  | .ok ast =>
      (ast.check s).errors.forM fun f => error span f.fault.message
      match (Expression.ofAst .string ast : Except EvalError (Expression α String)) with
      | .ok content => return content
      | .error _ => return .constant ""

/-- Reads a text. -/
def textRun (e : Element) (children : List Tree) (s : Scope α) : Binder (TextRun α) := do
  let anchor ← textAnchor e
  let content ← runContent e children s
  let x ← coordinate e "x" s .x
  let y ← coordinate e "y" s .y
  let fontSize ← typedOr e "font-size" s none (.constant (Number.ofInt 12))
  let fontFamily ← typed? e "font-family" s none
  return ⟨x, y, fontSize, fontFamily, anchor, content⟩

/-- A path of an image, if it is known and not empty, seen from the folder of the source. -/
def resolveImage (index : DocumentIndex) (href : Expression α FilePath) :
    Expression α FilePath :=
  match href with
  | .constant path =>
      if path.text = "" then href else .constant (FilePath.resolve index.sourceFolder path)
  | _ => href

/-- Reads an image. -/
def picture (index : DocumentIndex) (e : Element) (s : Scope α) : Binder (Picture α) := do
  let href ← required e "href" s none (.constant ⟨""⟩)
  let x ← coordinate e "x" s .x
  let y ← coordinate e "y" s .y
  let width ← coordinate? e "width" s .x
  let height ← coordinate? e "height" s .y
  return ⟨x, y, width, height, resolveImage index href⟩

/-- Reads a slot. -/
def slot (e : Element) (s : Scope α) : Binder (Slot α) := do
  let name := ((← requiredAttribute? e "name").map fun a => trimText a.value).getD ""
  let x ← coordinate e "x" s .x
  let y ← coordinate e "y" s .y
  let width ← coordinate? e "width" s .x
  let height ← coordinate? e "height" s .y
  return ⟨name, x, y, width, height⟩

/-! ### All figures -/

/-- The scope inside a frame, where the extents are those of the frame. -/
def frameScope (s : Scope α) : Scope α :=
  (s.child.declare Axis.x.extentName .scalar).declare Axis.y.extentName .scalar

/-- Reads the role of an area, without which it is an ordinary frame. -/
def areaKind (e : Element) (frame : FigureFrame α) : Binder (FigureKind α) := do
  match ← requiredAttribute? e "role" with
  | none => return .div frame
  | some a =>
      let role := trimText a.value
      recordArea role a.valueSpan
      return .area role frame

/-- Reads what a figure is, and the scope inside it. -/
def figureKind (index : DocumentIndex) (tag : FigureTag) (e : Element) (children : List Tree)
    (s : Scope α) : Binder (FigureKind α × Scope α) := do
  match tag with
  | .div => return (.div (← figureFrame e s), frameScope s)
  | .area =>
      let frame ← figureFrame e s
      return (← areaKind e frame, frameScope s)
  | .group => return (.group, s)
  | .shape kind => return (.shape (← figureShape kind e s), s)
  | .text => return (.text (← textRun e children s), s)
  | .image => return (.image (← picture index e s), s)
  | .field => return (.field (← slot e s), s)

end PatternMarkup
