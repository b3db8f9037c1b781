import PatternMarkup.Formula.Error
import PatternMarkup.Geometry.Color
import PatternMarkup.Geometry.Transform
/-!
The values of formulas, their types, their text, and their conversion to a type that is asked
for. Conversion widens integers, narrows whole numbers, prints numbers as text and takes one
number for uniform margins.
-/

namespace PatternMarkup

/-- The value of a formula. -/
inductive Value (α : Type) where
  | scalar (x : α)
  | int (n : Int64)
  | bool (b : Bool)
  | string (s : String)
  | color (c : Color α)
  | transform (m : Transform α)
  | rect (r : Rect α)
  | size (s : Size α)
  | point (p : Point α)
  | margins (m : Margins α)
  | list (items : List (Value α))
  /-- Named fields, in the order of their names. -/
  | record (fields : List (String × Value α))
deriving Inhabited

namespace Value

variable {α : Type}

/-! ### Types -/

mutual

/-- The type of a value. A list has the type of its first item. -/
def type : Value α → ValueType
  | scalar _ => .scalar
  | int _ => .int
  | bool _ => .bool
  | string _ => .string
  | color _ => .color
  | transform _ => .transform
  | rect _ => .rect
  | size _ => .size
  | point _ => .point
  | margins _ => .margins
  | list [] => .list .any
  | list (item :: _) => .list item.type
  | record fields => .record (fieldTypes fields)

/-- The types of fields. -/
def fieldTypes : List (String × Value α) → List (String × ValueType)
  | [] => []
  | (name, value) :: rest => (name, value.type) :: fieldTypes rest

end

/-! ### Equality -/

variable [Number α]

mutual

/-- Whether two values are the same; numbers of different types are not. -/
def same : Value α → Value α → Bool
  | scalar x, scalar y => x == y
  | int m, int n => m == n
  | bool a, bool b => a == b
  | string s, string t => s == t
  | color c, color d => c == d
  | transform m, transform n => m == n
  | rect r, rect s => r == s
  | size s, size t => s == t
  | point p, point q => p == q
  | margins m, margins n => m == n
  | list left, list right => sameItems left right
  | record left, record right => sameFields left right
  | _, _ => false

/-- Whether two lists hold the same values. -/
def sameItems : List (Value α) → List (Value α) → Bool
  | [], [] => true
  | v :: rest, w :: rest' => v.same w && sameItems rest rest'
  | _, _ => false

/-- Whether two records have the same fields. -/
def sameFields : List (String × Value α) → List (String × Value α) → Bool
  | [], [] => true
  | (name, v) :: rest, (name', w) :: rest' => name == name' && v.same w && sameFields rest rest'
  | _, _ => false

end

instance : BEq (Value α) := ⟨same⟩

/-! ### Text -/

/-- Numbers as a value shows them, with something between. -/
def numbersText (between : String) (xs : List α) : String :=
  between.intercalate (xs.map Number.text)

mutual

/-- The value as text. -/
def text : Value α → String
  | scalar x => Number.valueText x
  | int n => toString n.toInt
  | bool b => if b then "true" else "false"
  | string s => s
  | color c => c.text
  | transform m => "matrix(" ++ numbersText ", " [m.a, m.b, m.c, m.d, m.e, m.f] ++ ")"
  | rect r => numbersText ", " [r.x, r.y, r.width, r.height]
  | size s => numbersText ", " [s.width, s.height]
  | point p => numbersText ", " [p.x, p.y]
  | margins m => numbersText " " [m.top, m.right, m.bottom, m.left]
  | list items => "[" ++ ", ".intercalate (itemTexts items) ++ "]"
  | record fields => "\x7b" ++ ", ".intercalate (fieldTexts fields) ++ "\x7d"

/-- The texts of several values. -/
def itemTexts : List (Value α) → List String
  | [] => []
  | item :: rest => item.text :: itemTexts rest

/-- The texts of several fields. -/
def fieldTexts : List (String × Value α) → List String
  | [] => []
  | (name, value) :: rest => (name ++ ": " ++ value.text) :: fieldTexts rest

end

/-! ### Parts and conversion -/

/-- The number a value is, if it is one. -/
def number? : Value α → Option α
  | scalar x => some x
  | int n => some (Number.ofInt64 n)
  | _ => none

/-- The truth value a value is, if it is one. -/
def bool? : Value α → Option Bool
  | bool b => some b
  | _ => none

/-- The text a value is, if it is one. -/
def string? : Value α → Option String
  | string s => some s
  | _ => none

/-- Whether two values are the same; numbers are compared as such. -/
def looselyEquals (v w : Value α) : Bool :=
  match v.number?, w.number? with
  | some x, some y => x == y
  | _, _ => v == w

/-- The value if its type fits another one. -/
def fit (type : ValueType) (v : Value α) : Except EvalError (Value α) :=
  if type.accepts v.type then .ok v else .error (.badCast v.type.text type.text)

/-- Whether a number is an integer. -/
def isInteger (x : α) : Bool := Number.isWhole x && Number.isFinite x

mutual

/-- Brings a value into the form that a type asks for. -/
def coerce (type : ValueType) : Value α → Except EvalError (Value α)
  | scalar x =>
      match type with
      | .int => if isInteger x then .ok (int (Number.toInt64 x)) else fit .int (scalar x)
      | .string => .ok (string (scalar x).text)
      | .path => .ok (string (scalar x).text)
      | .margins => .ok (margins (Margins.uniform x))
      | other => fit other (scalar x)
  | int n =>
      match type with
      | .scalar => .ok (scalar (Number.ofInt64 n))
      | .string => .ok (string (int n : Value α).text)
      | .path => .ok (string (int n : Value α).text)
      | .margins => .ok (margins (Margins.uniform (Number.ofInt64 n)))
      | other => fit other (int n)
  | bool b =>
      match type with
      | .string => .ok (string (bool b : Value α).text)
      | .path => .ok (string (bool b : Value α).text)
      | other => fit other (bool b)
  | string s =>
      match type with
      | .enum members =>
          if members.contains s then .ok (string s)
          else .error (.badCast ("'" ++ s ++ "'") type.text)
      | other => fit other (string s)
  | list items =>
      match type with
      | .list item => (coerceItems item items).map list
      | other => fit other (list items)
  | record values =>
      match type with
      | .record fields =>
          if fields.length = values.length then
            (coerceFields type fields values).map record
          else fit type (record values)
      | other => fit other (record values)
  | v => fit type v

/-- Brings the items of a list into the form that a type asks for. -/
def coerceItems (type : ValueType) : List (Value α) → Except EvalError (List (Value α))
  | [] => .ok []
  | item :: rest => do
      let item ← item.coerce type
      return item :: (← coerceItems type rest)

/-- Brings fields into the form that the fields of the type `owner` ask for. -/
def coerceFields (owner : ValueType) (fields : List (String × ValueType)) :
    List (String × Value α) → Except EvalError (List (String × Value α))
  | [] => .ok []
  | (name, value) :: rest =>
      match Fields.get? name fields with
      | none => .error (.noSuchMember name owner.text)
      | some type => do
          let value ← value.coerce type
          return (name, value) :: (← coerceFields owner fields rest)

end

end Value

end PatternMarkup
