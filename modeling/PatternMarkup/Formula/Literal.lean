import PatternMarkup.Formula.Check
import PatternMarkup.Formula.Pieces
import PatternMarkup.Formula.Typed
import PatternMarkup.Geometry.Slicing
/-!
Reading text as an expression of a given type. Besides a formula between braces every type has a
form of its own: numbers may be percentages of an extent, rectangles and the like are lists of
numbers, transforms are lists of calls, and strings hold formulas among their text.
-/

namespace PatternMarkup

/-- What a literal may refer to. -/
structure LiteralContext (α : Type) where
  scope : Scope α
  /-- The axis a percentage is taken of; without one it is a plain fraction. -/
  axis : Option Axis := none

variable {α : Type} [Number α]

/-- The error of text that is not what is expected. -/
def Fragment.refuse (text : Fragment) (expected : String) : FormatError :=
  ⟨.invalidLiteral expected text.text, text.range⟩

/-- A fragment without the blanks at either end. -/
def Fragment.trimmed (text : Fragment) : Fragment :=
  ⟨text.offset + byteLength (text.chars.takeWhile isBlank), trim text.chars⟩

/-- A finite number in digits. -/
def readNumber? (text : List Char) : Option α :=
  (Numeral.read? text).map Numeral.value |>.filter Number.isFinite

/-- A number before a percent sign, divided by a hundred. -/
def readPercent? (text : List Char) : Option (Option α) :=
  match text.reverse with
  | '%' :: front => some ((readNumber? front.reverse).map (· / Number.ofInt 100))
  | _ => none

/-- A fraction of the extent along an axis. -/
def fractionOf (s : Scope α) (axis : Axis) (fraction : α) (range : ByteRange) :
    Except FormatError (Ast α) :=
  if s.contains axis.extentName then
    .ok (.ofBinary .multiply (.name axis.extentName range) (.literal (.scalar fraction) range))
  else .error ⟨.percentWithoutAxis axis.extentName, range⟩

/-- One number: digits, a percentage, or a formula. -/
def Fragment.numberItem (s : Scope α) (axis : Option Axis) (text : Fragment) :
    Except FormatError (Ast α) :=
  match text.braced? with
  | some inner => Ast.readFolded s inner
  | none =>
      match (readPercent? text.chars : Option (Option α)), axis with
      | some none, _ => .error (text.refuse "percentage")
      | some (some fraction), none => .ok (.literal (.scalar fraction) text.range)
      | some (some fraction), some axis => fractionOf s axis fraction text.range
      | none, _ =>
          match readNumber? text.chars with
          | some x => .ok (.literal (.scalar x) text.range)
          | none => .error (text.refuse "number")

/-- Numbers, each with its axis. -/
def numberItems (s : Scope α) (axes : List (Option Axis)) (items : List Fragment) :
    Except FormatError (List (Ast α)) :=
  (items.zip axes).mapM fun (item, axis) => item.numberItem s axis

/-- As many numbers as there are axes, as the arguments of a function. -/
def Fragment.tuple (s : Scope α) (b : Builtin) (axes : List (Option Axis)) (text : Fragment) :
    Except FormatError (Ast α) := do
  let items := text.pieces
  if items.length = axes.length then
    let arguments ← numberItems s axes items
    return (Ast.call b.name arguments text.range).fold s
  else throw ⟨.wrongCount b.name (toString axes.length) items.length, text.range⟩

/-- The numbers of the four sides: one for all, one for top and bottom and one for right and
left, or one for each from the top clockwise. -/
def sidesOf : List Fragment → Option (List Fragment)
  | [all] => some [all, all, all, all]
  | [vertical, horizontal] => some [vertical, horizontal, vertical, horizontal]
  | [top, right, bottom, left] => some [top, right, bottom, left]
  | _ => none

/-- Reads margins. -/
def Fragment.marginsItem (s : Scope α) (text : Fragment) : Except FormatError (Ast α) := do
  let items := text.pieces
  match sidesOf items with
  | some sides =>
      let arguments ← numberItems s [some .y, some .x, some .y, some .x] sides
      return (Ast.call Builtin.margins.name arguments text.range).fold s
  | none => throw ⟨.wrongCount Builtin.margins.name "1, 2 or 4" items.length, text.range⟩

/-! ### Transforms -/

/-- The function of a transform and the axes of its numbers, by the name it has in literals. -/
def transformFunction? (name : String) : Option (Builtin × List (Option Axis)) :=
  match name with
  | "translate" => some (.translate, [some .x, some .y])
  | "scale" => some (.scale, [none, none])
  | "rotate" => some (.rotate, [none, some .x, some .y])
  | "skewX" => some (.skewX, [none])
  | "skewY" => some (.skewY, [none])
  | "matrix" => some (.matrix, [none, none, none, none, none, none])
  | _ => none

/-- Whether a transform takes a number of values. A rotation has a centre or none, never half
of one. -/
def transformTakes (b : Builtin) (count : Nat) : Bool :=
  b.arity.accepts count && !(b == .rotate && count == 2)

/-- One call of a list of transforms: its name, its values, and the bytes of all of it. -/
def transformCall (s : Scope α) (b : Builtin) (axes : List (Option Axis)) (name values : Fragment) :
    Except FormatError (Ast α) := do
  let items := values.pieces
  let range : ByteRange := ⟨name.offset, values.stop + 1⟩
  if transformTakes b items.length then
    return .call b.name (← numberItems s axes items) range
  else throw ⟨.wrongCount name.text b.arity.text items.length, range⟩

/-- Whether a character separates the calls of a list of transforms. -/
def separatesCalls (c : Char) : Bool :=
  c == ' ' || c == '\t' || c == '\n' || c == '\r' || c == '\x0c' || c == ','

/-- The calls of a text from the byte `offset` on. -/
def transformCalls (s : Scope α) (offset : Nat) (text : List Char) :
    Except FormatError (List (Ast α)) :=
  let front := text.takeWhile separatesCalls
  let body := text.dropWhile separatesCalls
  let begin := offset + byteLength front
  if body.isEmpty then .ok []
  else
    let name := body.takeWhile Char.isAlpha
    let invalid : FormatError :=
      ⟨.invalidLiteral ValueType.transform.text (String.ofList (trim body)),
        ⟨begin, begin + byteLength body⟩⟩
    if name.isEmpty then .error invalid
    else
      match _hopen : body.dropWhile Char.isAlpha with
      | '(' :: inside =>
          match transformFunction? (String.ofList name) with
          | none =>
              .error ⟨.unknownTransform (String.ofList name), ⟨begin, begin + byteLength name⟩⟩
          | some (b, axes) =>
              match _hclose : closeParen inside with
              | none =>
                  let stop := begin + byteLength body
                  .error ⟨.unexpectedEnd "')'", ⟨stop, stop⟩⟩
              | some (values, after) => do
                  let first := begin + byteLength name + 1
                  let call ← transformCall s b axes ⟨begin, name⟩ ⟨first, values⟩
                  let more ← transformCalls s (first + byteLength values + 1) after
                  return call :: more
      | _ => .error invalid
termination_by text.length
decreasing_by
  have hclose := congrArg List.length (eq_append_of_closeParen _hclose)
  have hopen := congrArg List.length _hopen
  have hbody := (List.dropWhile_suffix (l := text) separatesCalls).length_le
  have hname := (List.dropWhile_suffix (l := body) Char.isAlpha).length_le
  simp only [List.length_append, List.length_cons] at hclose hopen
  simp only [body] at *
  omega

/-- Reads transforms, applied from the last to the first. -/
def Fragment.transforms (s : Scope α) (text : Fragment) : Except FormatError (Ast α) := do
  let word := trim text.chars
  if word.isEmpty ∨ word = "none".toList then
    return .literal (.transform .identity) text.range
  match ← transformCalls s text.offset text.chars with
  | [] => return .literal (.transform .identity) text.range
  | first :: more => return (more.foldl (.ofBinary .multiply) first).fold s

/-! ### All types -/

/-- The value of a word or a number whose type is not known. -/
def plainValue? (text : List Char) : Option (Value α) :=
  match readInt64? text with
  | some n => some (.int n)
  | none =>
      match readNumber? text with
      | some x => some (.scalar x)
      | none => (readBool? text).map .bool

/-- The truth value of a word. -/
def truthOf? (text : String) : Option Bool :=
  if text = "true" ∨ text = "yes" then some true
  else if text = "false" ∨ text = "no" then some false
  else none

/-- The color of a word. -/
def colorOf? (text : String) : Option (Color α) :=
  if text = "none" then some .transparent else Color.named? text

/-- The literal of a value, or the error of text that has none. -/
def Fragment.literalOf (text : Fragment) (type : ValueType) (value : Option (Value α)) :
    Except FormatError (Ast α) :=
  match value with
  | some v => .ok (.literal v text.range)
  | none => .error (text.refuse type.text)

/-- Reads text that is neither a formula nor a list. -/
def Fragment.plain (context : LiteralContext α) (type : ValueType) (text : Fragment) :
    Except FormatError (Ast α) :=
  let s := context.scope
  let word := text.trimmed
  match type with
  | .scalar => word.numberItem s context.axis
  | .int => word.literalOf type ((readInt64? word.chars).map .int)
  | .bool => word.literalOf type ((truthOf? word.text).map .bool)
  | .color => word.literalOf type ((colorOf? word.text).map .color)
  | .transform => text.transforms s
  | .rect => text.tuple s .rect [some .x, some .y, some .x, some .y]
  | .size => text.tuple s .size [some .x, some .y]
  | .point => text.tuple s .point [some .x, some .y]
  | .margins => text.marginsItem s
  | .enum members =>
      if members.contains word.text then .ok (.literal (.string word.text) word.range)
      else .error ⟨.unknownEnumValue word.text members, word.range⟩
  | .any =>
      match (plainValue? word.chars : Option (Value α)) with
      | some v => .ok (.literal v word.range)
      | none => text.template s
  | _ => .error (word.refuse type.text)

/-- The expression of a tree: a literal becomes a constant of the type, anything else a formula
of the type. -/
def Fragment.settle (text : Fragment) (type : ValueType) (ast : Ast α) :
    Except FormatError (Expression α (Value α)) :=
  match ast.literal? with
  | none => .ok (.formula ⟨ast, type⟩)
  | some v =>
      match v.coerce type with
      | .ok w => .ok (.constant w)
      | .error _ => .error ⟨.invalidLiteral type.text text.trimmed.text, text.range⟩

/-- Reads a formula between braces as one of a type, and other text as `other` does. -/
def Fragment.settleBraced (s : Scope α) (text : Fragment) (type : ValueType)
    (other : Except FormatError (Ast α)) : Except FormatError (Expression α (Value α)) := do
  match text.braced? with
  | some inner => text.settle type (← Ast.readFolded s inner)
  | none => text.settle type (← other)

/-- Reads text as an expression of a type. -/
def readTyped (context : LiteralContext α) : ValueType → Fragment →
    Except FormatError (Expression α (Value α))
  | .string, text => do text.settle .string (← text.template context.scope)
  | .path, text => do text.settle .path (← text.template context.scope)
  | .list .scalar, text =>
      text.settleBraced context.scope (.list .scalar) do
        let items ← text.pieces.mapM fun item => item.numberItem context.scope context.axis
        return (Ast.list items text.trimmed.range).fold context.scope
  | .list type, text =>
      text.settleBraced context.scope (.list type) do
        let items ← text.pieces.mapM fun item => readTyped context type item
        return (Ast.list (items.map (·.toAst)) text.trimmed.range).fold context.scope
  | type, text => text.settleBraced context.scope type (text.plain context type)

/-- Reads text as an expression of a type of this library. -/
def readAs {τ : Type} [Typed α τ] (context : LiteralContext α) (text : String) :
    Except FormatError (Expression α τ) := do
  let type := Typed.valueType α τ
  let whole := Fragment.ofString text 0
  match (← readTyped context type whole).cast with
  | .ok e => return e
  | .error _ => throw ⟨.invalidLiteral type.text whole.trimmed.text, whole.range⟩

end PatternMarkup
