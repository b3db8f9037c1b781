import PatternMarkup.Drawing.Look
import PatternMarkup.Drawing.Sheet
import PatternMarkup.Files.Path
import PatternMarkup.Pattern.Canvas
/-!
Drawing figures. A figure that fails is left out with a report, and those beside it are drawn;
a figure hands its own failure to the one around it. Of its surroundings drawing has to know how
wide a text is, and how large an image is.
-/

namespace PatternMarkup

/-- The surroundings of a drawing. -/
structure Stage (α : Type) where
  /-- The width of a line of text at a type size. -/
  textWidth : String → α → α
  /-- The size of an image, if it is known. -/
  imageSize? : FilePath → Option (Size α)

namespace Stage

variable {α : Type} [Number α]

/-- Surroundings in which every character is `advance` times as wide as the type size, and in
which the sizes of some images are known; the last entry of a path counts. -/
def monospace (advance : α) (images : List (FilePath × Size α)) : Stage α where
  textWidth text size := Number.ofNat text.length * size * advance
  imageSize? path := (images.reverse.find? (·.1 == path)).map (·.2)

/-- The width of a text as a function of formulas. -/
def measure (stage : Stage α) : List (Value α) → Except EvalError (Value α)
  | [text, size] =>
      match size.number? with
      | some size => .ok (.scalar (stage.textWidth text.text size))
      | none => .error (.invalidArgument Canvas.textWidthName "font size must be a number")
  | _ => .error (.invalidArgument Canvas.textWidthName "expected a text and a font size")

/-- The scope around a pattern that is drawn at the given size. -/
def scope (stage : Stage α) (size : Size α) : Scope α :=
  (Canvas.initialState .empty size.width size.height).define (Canvas.textWidth stage.measure)

end Stage

variable {α : Type} [Number α]

/-- Drawing the figures inside one, in their scope and with their map. -/
abbrev DrawInside (α : Type) := Scope α → Mapping α → Draw α Unit

namespace Draw

/-- Fills a path, unless nothing would be seen of it. -/
def fill (path : Path α) (paint : CanvasPaint α) : Draw α Unit :=
  if paint.isInvisible || path.isEmpty then pure () else mark (.fill path paint)

/-- Strokes a path, unless nothing would be seen of it. -/
def stroke (path : Path α) (width : α) (paint : CanvasPaint α) : Draw α Unit :=
  if paint.isInvisible || path.isEmpty then pure ()
  else if Number.zero < width then mark (.stroke path paint width)
  else pure ()

/-- Fills and strokes a path with the paints there are. -/
def paint (path : Path α) (filling stroking : Option (CanvasPaint α)) (width : α) :
    Draw α Unit := do
  filling.forM (fill path)
  stroking.forM (stroke path width)

/-- Draws with everything cut off at a path, if that is asked for. -/
def clipped (clip : Bool) (path : Path α) (inside : Draw α Unit) : Draw α Unit := do
  if clip then
    command .save
    command (.clip path)
    inside
    command .restore
  else inside

end Draw

/-! ### The kinds of figures -/

/-- Draws a figure that has a frame. What lies in a sliced figure sees the size of the reference
and is laid out from there. -/
def FigureFrame.draw (frame : FigureFrame α) (style : Style α) (s : Scope α) (m : Mapping α)
    (inside : DrawInside α) : Draw α Unit := do
  let rect ← frame.rect s
  let slicing ← frame.slicing? s
  let size := (slicing.map (·.reference)).getD rect.size
  let inner := (s.child.bindValue "width" (.scalar size.width)).bindValue "height"
    (.scalar size.height)
  let look ← style.look inner
  if look.visible then
    let own := look.mapping m
    let placed := own.transformed (.translate rect.x rect.y)
    let insideMap :=
      match slicing with
      | some values => placed.sliced (.compute values (.ofSize rect.size))
      | none => placed
    let outline := own.path (.ofRect rect)
    let bounds := (Rect.ofSize rect.size).translate rect.x rect.y
    let filling ← resolvePaint bounds own inner style.fill
    let stroking ← resolvePaint bounds own inner style.stroke
    Draw.paint outline filling stroking (look.strokeWidth * own.lengthScale)
    Draw.clipped style.clip outline (inside (look.scope style inner) insideMap)

/-- Draws a group: nothing of its own, only what lies in it. -/
def drawGroup (style : Style α) (s : Scope α) (m : Mapping α) (inside : DrawInside α) :
    Draw α Unit := do
  let look ← style.look s
  if look.visible then inside (look.scope style s) (look.mapping m)

/-- Draws a shape. -/
def Shape.draw (shape : Shape α) (style : Style α) (s : Scope α) (m : Mapping α) :
    Draw α Unit := do
  let look ← style.look s
  if look.visible then
    let outline ← shape.outline s
    let own := look.mapping m
    let filling ←
      resolvePaint outline.bounds own s (if shape.hasInside then style.fill else none)
    let stroking ← resolvePaint outline.bounds own s style.stroke
    Draw.paint (own.path outline) filling stroking (look.strokeWidth * own.lengthScale)

/-- How far left of its position a text of the given width starts. -/
def TextAnchor.shift (anchor : TextAnchor) (width : α) : α :=
  match anchor with
  | start => Number.zero
  | middle => width / Number.two
  | stop => width

/-- Draws a line of text, unless it is empty. -/
def TextRun.draw (run : TextRun α) (stage : Stage α) (style : Style α) (s : Scope α)
    (m : Mapping α) : Draw α Unit := do
  let look ← style.look s
  if look.visible then
    let content ← run.content.evaluate s
    unless content.isEmpty do
      let fontSize ← run.fontSize.evaluate s
      let x ← run.x.evaluate s
      let y ← run.y.evaluate s
      let own := look.mapping m
      let left := x - run.anchor.shift (stage.textWidth content fontSize)
      let fontFamily ← evaluateOption s run.fontFamily
      Draw.mark (.text content (own.apply ⟨left, y⟩)
        ⟨fontSize * own.lengthScale, fontFamily, look.textColor⟩)

/-- The size at which an image is drawn: what is missing is taken from the image itself. -/
def Stage.pictureSize (stage : Stage α) (href : FilePath) (width height : Option α) :
    Except EvalError (Size α) :=
  match width, height with
  | some w, some h => .ok ⟨w, h⟩
  | w, h =>
      match stage.imageSize? href with
      | some size => .ok ⟨w.getD size.width, h.getD size.height⟩
      | none => .error (.invalidArgument "image"
          ("no size given and '" ++ href.text ++ "' has no known size"))

/-- Draws an image. -/
def Picture.draw (picture : Picture α) (stage : Stage α) (style : Style α) (s : Scope α)
    (m : Mapping α) : Draw α Unit := do
  let look ← style.look s
  if look.visible then
    let href ← picture.href.evaluate s
    let width ← evaluateOption s picture.width
    let height ← evaluateOption s picture.height
    let size ← stage.pictureSize href width height
    let x ← picture.x.evaluate s
    let y ← picture.y.evaluate s
    Draw.mark (.image href ((look.mapping m).rect ⟨x, y, size.width, size.height⟩))

/-- The value of an extent, or else what is left of that of the canvas. -/
def extentFrom (s : Scope α) (name : String) (start : α) (extent : Option (Expression α α)) :
    Except EvalError α := do
  match extent with
  | some e => e.evaluate s
  | none => return (← s.read name) - start

/-- Draws a place that is filled from outside. -/
def Slot.draw (slot : Slot α) (style : Style α) (s : Scope α) (m : Mapping α) :
    Draw α Unit := do
  let look ← style.look s
  if look.visible then
    let x ← slot.x.evaluate s
    let y ← slot.y.evaluate s
    let width ← extentFrom s "width" x slot.width
    let height ← extentFrom s "height" y slot.height
    Draw.mark (.field slot.name ((look.mapping m).rect ⟨x, y, width, height⟩))

/-! ### Figures -/

/-- Draws a figure once. -/
def FigureHead.drawOnce (head : FigureHead α) (stage : Stage α) (inside : DrawInside α)
    (s : Scope α) (m : Mapping α) : Draw α Unit :=
  let s := variableScope s head.vars
  match head.kind with
  | .div frame => frame.draw head.style s m inside
  | .area _ frame => frame.draw head.style s m inside
  | .group => drawGroup head.style s m inside
  | .shape shape => shape.draw head.style s m
  | .text run => run.draw stage head.style s m
  | .image picture => picture.draw stage head.style s m
  | .field slot => slot.draw head.style s m

/-- The scope of one turn of a loop. -/
def Loop.turn (loop : Loop α) (s : Scope α) (index : Nat) (item : Value α) : Scope α :=
  let inner := s.child.bindValue loop.item item
  match loop.index with
  | some name => inner.bindValue name (.int (Int64.ofNat index))
  | none => inner

/-- Draws every turn of a loop; the turns after one that fails are not drawn. -/
def Loop.drawTurns (loop : Loop α) (s : Scope α) (once : Scope α → Draw α Unit) (index : Nat) :
    List (Value α) → Draw α Unit
  | [] => pure ()
  | item :: rest => do
      let item ← item.coerce loop.itemType
      once (loop.turn s index item)
      loop.drawTurns s once (index + 1) rest

/-- The items of a loop. -/
def Loop.values (loop : Loop α) (s : Scope α) : Except EvalError (List (Value α)) := do
  match ← loop.items.evaluate s with
  | .list items => return items
  | other => .error (.badCast other.type.text "list")

/-- Draws a figure, once for each item if it has a loop. -/
def FigureHead.draw (head : FigureHead α) (stage : Stage α) (inside : DrawInside α)
    (s : Scope α) (m : Mapping α) : Draw α Unit :=
  match head.loop with
  | none => head.drawOnce stage inside s m
  | some loop => do
      let items ← loop.values s
      loop.drawTurns s (fun turn => head.drawOnce stage inside turn m) 0 items

/-- The report about a figure that is left out. -/
def FigureHead.skipReport (head : FigureHead α) (e : EvalError) : Diagnostic :=
  (Diagnostic.error .evaluation head.span "element could not be drawn").because e.message

mutual

/-- Draws a figure and those in it. -/
def Figure.draw (stage : Stage α) : Figure α → Scope α → Mapping α → Draw α Unit
  | .mk head children, s, m => head.draw stage (drawFigures stage children) s m

/-- Draws figures one after another; one that fails is left out. -/
def drawFigures (stage : Stage α) : List (Figure α) → Scope α → Mapping α → Draw α Unit
  | [], _, _ => pure ()
  | figure :: rest, s, m => do
      (figure.draw stage s m).orElse fun e => Draw.skip (figure.head.skipReport e)
      drawFigures stage rest s m

end

end PatternMarkup
