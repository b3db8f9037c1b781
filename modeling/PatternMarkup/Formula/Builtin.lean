import PatternMarkup.Formula.Apply
import PatternMarkup.Number.Numeral
/-!
The functions and constants every formula knows: their names, the arguments they take, the type
of their result, and their value.
-/

namespace PatternMarkup

/-- A function every formula knows. -/
inductive Builtin where
  | min
  | max
  | abs
  | floor
  | ceil
  | round
  | sqrt
  | sin
  | cos
  | tan
  | atan2
  | pow
  | clamp
  | len
  | range
  | rgb
  | rgba
  | gray
  | hex
  | str
  | int
  | translate
  | scale
  | rotate
  | skewX
  | skewY
  | matrix
  | rect
  | size
  | point
  | margins
  /-- The function `if`, one of two values by a condition. -/
  | choose
deriving Repr, DecidableEq, Inhabited

namespace Builtin

/-- All of them. -/
def all : List Builtin :=
  [min, max, abs, floor, ceil, round, sqrt, sin, cos, tan, atan2, pow, clamp, len, range, rgb,
    rgba, gray, hex, str, int, translate, scale, rotate, skewX, skewY, matrix, rect, size, point,
    margins, choose]

/-- The name of a function. -/
def name : Builtin → String
  | min => "min"
  | max => "max"
  | abs => "abs"
  | floor => "floor"
  | ceil => "ceil"
  | round => "round"
  | sqrt => "sqrt"
  | sin => "sin"
  | cos => "cos"
  | tan => "tan"
  | atan2 => "atan2"
  | pow => "pow"
  | clamp => "clamp"
  | len => "len"
  | range => "range"
  | rgb => "rgb"
  | rgba => "rgba"
  | gray => "gray"
  | hex => "hex"
  | str => "str"
  | int => "int"
  | translate => "translate"
  | scale => "scale"
  | rotate => "rotate"
  | skewX => "skew_x"
  | skewY => "skew_y"
  | matrix => "matrix"
  | rect => "rect"
  | size => "size"
  | point => "point"
  | margins => "margins"
  | choose => "if"

/-- The function of a name. -/
def ofName? (name : String) : Option Builtin := all.find? (·.name == name)

/-- How many arguments a function takes. -/
def arity : Builtin → Arity
  | min => .atLeast 1
  | max => .atLeast 1
  | atan2 => .exactly 2
  | pow => .exactly 2
  | size => .exactly 2
  | point => .exactly 2
  | clamp => .exactly 3
  | rgb => .exactly 3
  | choose => .exactly 3
  | rgba => .exactly 4
  | rect => .exactly 4
  | range => .between 1 2
  | translate => .between 1 2
  | scale => .between 1 2
  | rotate => .between 1 3
  | margins => .between 1 4
  | matrix => .exactly 6
  | _ => .exactly 1

/-- The type of the result, by the types of the arguments. -/
def returnType (b : Builtin) (arguments : List ValueType) : ValueType :=
  let extreme : ValueType := if arguments.all (· == .int) then .int else .scalar
  match b with
  | min => extreme
  | max => extreme
  | abs => extreme
  | len => .int
  | int => .int
  | range => .list .int
  | rgb => .color
  | rgba => .color
  | gray => .color
  | hex => .color
  | str => .string
  | translate => .transform
  | scale => .transform
  | rotate => .transform
  | skewX => .transform
  | skewY => .transform
  | matrix => .transform
  | rect => .rect
  | size => .size
  | point => .point
  | margins => .margins
  | choose =>
      match arguments with
      | [_, then_, else_] => then_.unify else_
      | _ => .any
  | _ => .scalar

/-- The type of the argument at a place. -/
def parameterType (b : Builtin) (index : Nat) : ValueType :=
  match b with
  | len => .any
  | str => .any
  | int => .any
  | hex => .string
  | choose => if index = 0 then .bool else .any
  | _ => .scalar

/-- The type of the result of the function of a name; a number if there is none. -/
def returnTypeNamed (name : String) (arguments : List ValueType) : ValueType :=
  ((ofName? name).map (·.returnType arguments)).getD .scalar

/-- The type of an argument of the function of a name; a number if there is none. -/
def parameterTypeNamed (name : String) (index : Nat) : ValueType :=
  ((ofName? name).map (·.parameterType index)).getD .scalar

/-- The greatest number of items `range` makes. -/
def rangeLimit : Nat := 1000000

section Values

variable {α : Type} [Number α]

/-- The constants: names of colors. -/
def constant? (name : String) : Option (Value α) :=
  if name = "grey" then none else (Color.named? name).map .color

/-- Whether a name is that of a constant. -/
def isConstant (name : String) : Bool :=
  ["black", "white", "red", "green", "blue", "gray", "transparent"].contains name

/-- The error of an argument a function cannot take. -/
def refuse (b : Builtin) (message : String) : EvalError := .invalidArgument b.name message

/-- An argument as a number. -/
def number (b : Builtin) (v : Value α) : Except EvalError α :=
  match v.number? with
  | some x => .ok x
  | none => .error (b.refuse ("expected a number, got " ++ v.type.text))

/-- All arguments as numbers. -/
def numbers (b : Builtin) : List (Value α) → Except EvalError (List α)
  | [] => .ok []
  | v :: rest => do
      let x ← b.number v
      return x :: (← b.numbers rest)

/-- The integers among values. -/
def ints? : List (Value α) → Option (List Int64)
  | [] => some []
  | .int n :: rest => (ints? rest).map (n :: ·)
  | _ => none

/-- The least or greatest of the arguments. -/
def extreme (b : Builtin) (ofInts : Int64 → Int64 → Int64) (ofReals : α → α → α)
    (arguments : List (Value α)) : Except EvalError (Value α) :=
  match ints? arguments with
  | some [] => .ok (.int 0)
  | some (n :: rest) => .ok (.int (rest.foldl ofInts n))
  | none => do
      match ← b.numbers arguments with
      | [] => return .scalar Number.zero
      | x :: rest => return .scalar (rest.foldl ofReals x)

/-- The whole numbers from `start` up to, not including, `stop`. -/
def rangeValues (start stop : Int) : List (Value α) :=
  (List.range (stop - start).toNat).map fun (i : Nat) => .int (Int64.ofInt (start + i))

/-- The value of `range`. -/
def rangeOf (start stop : α) : Except EvalError (Value α) :=
  if !(Number.isFinite start && Number.isFinite stop) then
    .error (range.refuse "bounds must be finite")
  else
    let start := Number.trunc start
    let stop := Number.trunc stop
    let count := stop - start
    if Number.ofNat rangeLimit < count then
      .error (range.refuse
        (Number.text count ++ " items exceeds the limit of " ++ toString rangeLimit))
    else .ok (.list (rangeValues (Number.toInt start) (Number.toInt stop)))

/-- The value of `int`. -/
def toInteger (v : Value α) : Except EvalError (Value α) :=
  match v with
  | .int n => .ok (.int n)
  | .scalar x =>
      if Number.isFinite x then .ok (.int (Number.toInt64 (Number.trunc x)))
      else .error (.badCast v.type.text ValueType.int.text)
  | .bool b => .ok (.int (if b then 1 else 0))
  | .string s =>
      match readInt64? (trim s.toList) with
      | some n => .ok (.int n)
      | none => .error (.badCast ("string '" ++ s ++ "'") ValueType.int.text)
  | _ => .error (.badCast v.type.text ValueType.int.text)

/-- The value of `len`. -/
def lengthOf (v : Value α) : Except EvalError (Value α) :=
  match v with
  | .list items => .ok (.int (Int64.ofNat items.length))
  | .string s => .ok (.int (Int64.ofNat s.length))
  | _ => .error (.badCast v.type.text "list")

/-- The value of `hex`. -/
def colorOf (v : Value α) : Except EvalError (Value α) :=
  match v with
  | .string s =>
      match Color.ofHex? s.toList with
      | some c => .ok (.color c)
      | none => .error (hex.refuse ("'" ++ s ++ "' is not a hex colour"))
  | _ => .error (.badCast v.type.text ValueType.string.text)

/-- The value of a function of numbers. -/
def ofNumbers (b : Builtin) (xs : List α) : Except EvalError (Value α) :=
  match b, xs with
  | floor, [x] => .ok (.scalar (Number.floor x))
  | ceil, [x] => .ok (.scalar (Number.ceil x))
  | round, [x] => .ok (.scalar (Number.round x))
  | sqrt, [x] =>
      if x < Number.zero then .error (b.refuse "negative input") else .ok (.scalar (Number.sqrt x))
  | sin, [x] => .ok (.scalar (Number.sin (Number.radians x)))
  | cos, [x] => .ok (.scalar (Number.cos (Number.radians x)))
  | tan, [x] => .ok (.scalar (Number.tan (Number.radians x)))
  | atan2, [y, x] => .ok (.scalar (Number.degrees (Number.atan2 y x)))
  | pow, [x, y] => .ok (.scalar (Number.pow x y))
  | clamp, [x, low, high] =>
      if high < low then .error (b.refuse "lower bound above upper bound")
      else .ok (.scalar (Number.clamp x low high))
  | range, [stop] => rangeOf Number.zero stop
  | range, [start, stop] => rangeOf start stop
  | rgb, [r, g, b] => .ok (.color (Color.ofBytes r g b Number.one))
  | rgba, [r, g, b, a] => .ok (.color (Color.ofBytes r g b a))
  | gray, [level] => .ok (.color (Color.gray level))
  | translate, [x] => .ok (.transform (Transform.translate x Number.zero))
  | translate, [x, y] => .ok (.transform (Transform.translate x y))
  | scale, [x] => .ok (.transform (Transform.scale x x))
  | scale, [x, y] => .ok (.transform (Transform.scale x y))
  | rotate, [angle] => .ok (.transform (Transform.rotate angle))
  | rotate, [angle, x, y] => .ok (.transform (Transform.rotateAbout angle x y))
  | rotate, _ => .error (b.refuse "expects an angle and an optional centre")
  | skewX, [angle] => .ok (.transform (Transform.skewX angle))
  | skewY, [angle] => .ok (.transform (Transform.skewY angle))
  | matrix, [a, b, c, d, e, f] => .ok (.transform ⟨a, b, c, d, e, f⟩)
  | rect, [x, y, width, height] => .ok (.rect ⟨x, y, width, height⟩)
  | size, [width, height] => .ok (.size ⟨width, height⟩)
  | point, [x, y] => .ok (.point ⟨x, y⟩)
  | margins, values =>
      match Margins.ofValues? values with
      | some m => .ok (.margins m)
      | none => .error (b.refuse "takes 1, 2 or 4 values")
  | b, xs => .error (.arity b.name b.arity xs.length)

/-- The value of a function whose arguments are as many as it takes. -/
def evaluate (b : Builtin) (arguments : List (Value α)) : Except EvalError (Value α) :=
  match b, arguments with
  | min, _ => b.extreme (fun m n => if n < m then n else m) Number.min arguments
  | max, _ => b.extreme (fun m n => if m < n then n else m) Number.max arguments
  | abs, [.int n] => .ok (.int (Int64.ofInt n.toInt.natAbs))
  | abs, [v] => (b.number v).map fun x => .scalar (Number.abs x)
  | len, [v] => lengthOf v
  | hex, [v] => colorOf v
  | str, [v] => .ok (.string v.text)
  | int, [v] => toInteger v
  | choose, [condition, then_, else_] =>
      match condition with
      | .bool c => .ok (if c then then_ else else_)
      | _ => .error (.badCast condition.type.text ValueType.bool.text)
  | _, _ => do b.ofNumbers (← b.numbers arguments)

/-- The value of a function. -/
def call (b : Builtin) (arguments : List (Value α)) : Except EvalError (Value α) :=
  if b.arity.accepts arguments.length then b.evaluate arguments
  else .error (.arity b.name b.arity arguments.length)

/-- The value of the function of a name. -/
def callNamed (name : String) (arguments : List (Value α)) : Except EvalError (Value α) :=
  match ofName? name with
  | some b => b.call arguments
  | none => .error (.undefinedName name)

end Values

end Builtin

end PatternMarkup
