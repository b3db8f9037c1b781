import PatternMarkup.Formula.Scope
/-!
The names that every formula of a pattern can read: the extents and the paints of the canvas,
and the width of a text. While a document is bound they are known without a value.
-/

namespace PatternMarkup.Canvas

/-- The names of the canvas and their types. -/
def reservedNames : List (String × ValueType) :=
  [("width", .scalar), ("height", .scalar), ("fill", .color), ("stroke", .color),
    ("stroke_width", .scalar), ("text_color", .color), ("transform", .transform)]

/-- Whether a name belongs to the canvas. -/
def isReserved (name : String) : Bool := reservedNames.any (·.1 == name)

/-- The name of the function that measures text. -/
def textWidthName : String := "text_width"

/-- The function that measures text, given how it does. -/
def textWidth {α : Type} (call : List (Value α) → Except EvalError (Value α)) : HostFunction α :=
  ⟨textWidthName, [.string, .scalar], .scalar, call⟩

variable {α : Type}

/-- The scope in which a document is bound. -/
def declarations : Scope α :=
  let named := reservedNames.foldl (fun s (name, type) => s.declare name type) (.empty : Scope α)
  named.define (textWidth fun _ =>
    .error (.invalidArgument textWidthName "font metrics are only available while drawing"))

/-- The scope of a canvas of a given size, before anything is drawn. -/
def initialState [Number α] (s : Scope α) (width height : α) : Scope α :=
  [("width", .scalar width), ("height", .scalar height), ("fill", .color .transparent),
    ("stroke", .color .transparent), ("stroke_width", .scalar Number.one),
    ("text_color", .color .black), ("transform", .transform .identity)].foldl
      (fun s (name, value) => s.bindValue name value) s

end PatternMarkup.Canvas
