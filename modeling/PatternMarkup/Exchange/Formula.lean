import PatternMarkup.Exchange.Geometry
import PatternMarkup.Exchange.Problem
import PatternMarkup.Formula.Fold
import PatternMarkup.Formula.Check
import PatternMarkup.Formula.Typed
/-!
How types, values and expressions are written as JSON, and how types and values are read from
it. A value stands beside the name of its type; an expression is a constant or the text of its
formula.
-/

namespace PatternMarkup

mutual

/-- A type: its name, or its name with what it is made of. -/
def ValueType.json : ValueType → Json
  | .enum members => .object [("enum", .strings members)]
  | .list item => .object [("list", item.json)]
  | .record fields => .object [("record", .object (typeMembers fields))]
  | type => .string type.text

/-- The fields of a record type. -/
def typeMembers : List (String × ValueType) → List (String × Json)
  | [] => []
  | (name, type) :: rest => (name, type.json) :: typeMembers rest

end

/-- A value beside the name of its type. -/
def taggedValue (type : String) (value : Json) : Json :=
  .object [("type", .string type), ("value", value)]

mutual

/-- A value and the name of its type. -/
def Value.json : Value Float → Json
  | .scalar x => taggedValue "scalar" (.float x)
  | .int n => taggedValue "int" (.int n.toInt)
  | .bool b => taggedValue "bool" (.bool b)
  | .string s => taggedValue "string" (.string s)
  | .color c => taggedValue "color" c.json
  | .transform m => taggedValue "transform" m.json
  | .rect r => taggedValue "rect" r.json
  | .size s => taggedValue "size" s.json
  | .point p => taggedValue "point" p.json
  | .margins m => taggedValue "margins" m.json
  | .list items => taggedValue "list" (.list (itemValues items))
  | .record fields => taggedValue "record" (.object (memberValues fields))

/-- The items of a list. -/
def itemValues : List (Value Float) → List Json
  | [] => []
  | item :: rest => item.json :: itemValues rest

/-- The fields of a record. -/
def memberValues : List (String × Value Float) → List (String × Json)
  | [] => []
  | (name, value) :: rest => (name, value.json) :: memberValues rest

end

/-- A type whose elements have a JSON form. -/
class Exported (τ : Type) where
  json : τ → Json

instance : Exported Float := ⟨.float⟩

instance : Exported Int64 := ⟨fun n => .int n.toInt⟩

instance : Exported Bool := ⟨.bool⟩

instance : Exported String := ⟨.string⟩

instance : Exported FilePath := ⟨fun p => .string p.text⟩

instance : Exported (Color Float) := ⟨Color.json⟩

instance : Exported (Transform Float) := ⟨Transform.json⟩

instance : Exported (Rect Float) := ⟨Rect.json⟩

instance : Exported (Size Float) := ⟨Size.json⟩

instance : Exported (Point Float) := ⟨Point.json⟩

instance : Exported (Margins Float) := ⟨Margins.json⟩

instance : Exported (Value Float) := ⟨Value.json⟩

instance {τ : Type} [Exported τ] : Exported (List τ) :=
  ⟨fun items => .list (items.map Exported.json)⟩

/-- An expression: its value if that is known, else its formula. -/
def Expression.json {τ : Type} [Exported τ] : Expression Float τ → Json
  | .constant v => .object [("constant", Exported.json v)]
  | .formula f => .object [("formula", .string f.ast.text)]

/-! ### Formulas -/

/-- A node of a formula: its name, its parts, and the bytes it was read from. -/
def astNode (name : String) (parts : List (String × Json)) (range : ByteRange) : Json :=
  .object (("node", .string name) :: parts ++ [("range", range.json)])

mutual

/-- A formula as a tree. -/
def Ast.json : Ast Float → Json
  | .literal v r => astNode "literal" [("value", v.json)] r
  | .name n r => astNode "name" [("name", .string n)] r
  | .list items r => astNode "list" [("items", .list (astItems items))] r
  | .unary op operand r =>
      astNode "unary" [("operator", .string op.symbol), ("operand", operand.json)] r
  | .binary op left right r => astNode "binary"
      [("operator", .string op.symbol), ("left", left.json), ("right", right.json)] r
  | .conditional condition then_ else_ r => astNode "conditional"
      [("condition", condition.json), ("then", then_.json), ("otherwise", else_.json)] r
  | .call function arguments r => astNode "call"
      [("function", .string function), ("args", .list (astItems arguments))] r
  | .member object m r => astNode "member" [("object", object.json), ("member", .string m)] r
  | .index object i r => astNode "index" [("object", object.json), ("index", i.json)] r
  | .interpolation parts r => astNode "interpolation" [("parts", .list (astItems parts))] r

/-- Several formulas. -/
def astItems : List (Ast Float) → List Json
  | [] => []
  | ast :: rest => ast.json :: astItems rest

end

/-- The outcome of an evaluation: a value with its text, or the error. -/
def outcomeJson (outcome : Except EvalError (Value Float)) : Json :=
  match outcome with
  | .ok v => .object [("text", .string v.text), ("value", v.json)]
  | .error e => e.json

/-- A formula in a scope: its tree and text, the names it reads, its type, and its value. -/
def Ast.report (s : Scope Float) (ast : Ast Float) : List (String × Json) :=
  let c := ast.check s
  [("ast", ast.json), ("print", .string ast.text), ("free", .strings ast.freeNames),
    ("literal", .bool ast.isLiteral), ("type", .string c.type.text),
    ("check", typeErrorsJson c.errors), ("result", outcomeJson (ast.evaluate s))]

/-- An expression in a scope: its forms, the names it reads, its type, its tree and its value. -/
def Expression.report {τ : Type} [Typed Float τ] [Exported τ] (s : Scope Float)
    (e : Expression Float τ) : List (String × Json) :=
  let outcome := (e.evaluate s).map (Typed.toValue : τ → Value Float)
  [("expr", e.json), ("widened", e.widen.json), ("constant", .bool e.isConstant),
    ("free", .strings e.freeNames), ("type", .string e.valueType.text), ("tree", e.toAst.json),
    ("result", outcomeJson outcome)]

/-- The names of a scope with the texts of their types. -/
def Scope.json (s : Scope Float) : Json :=
  .object (s.names.map fun (name, type) => (name, .string type.text))

/-- What a name stands for: its type, its value if it has one, and what is wrong if not. -/
def Binding.json (name : String) (b : Binding Float) : Json :=
  .object [("type", .string b.type.text), ("value", .optional Expression.json b.value?),
    ("failure", .optional (fun e => .string e.message) b.failure?),
    ("missing", .string (b.missing name).message)]

/-! ### Reading -/

/-- The numbers of several members. -/
def numbersOf (members : List (String × Json)) (names : List String) : Option (List Float) :=
  names.mapM fun name => ((Json.object members).member? name).bind Json.number?

/-- The value of a type that is written with members of its own. -/
def partsValue? (type : String) (members : List (String × Json)) : Option (Value Float) :=
  match type with
  | "color" => do
      let [r, g, b, a] ← numbersOf members ["r", "g", "b", "a"] | none
      return .color ⟨r, g, b, a⟩
  | "transform" => do
      let [a, b, c, d, e, f] ← numbersOf members ["a", "b", "c", "d", "e", "f"] | none
      return .transform ⟨a, b, c, d, e, f⟩
  | "rect" => do
      let [x, y, w, h] ← numbersOf members ["x", "y", "width", "height"] | none
      return .rect ⟨x, y, w, h⟩
  | "size" => do
      let [w, h] ← numbersOf members ["width", "height"] | none
      return .size ⟨w, h⟩
  | "point" => do
      let [x, y] ← numbersOf members ["x", "y"] | none
      return .point ⟨x, y⟩
  | "margins" => do
      let [t, r, b, l] ← numbersOf members ["top", "right", "bottom", "left"] | none
      return .margins ⟨t, r, b, l⟩
  | _ => none

/-- The value of a type that is written without parts. -/
def leafValue? (type : String) (j : Json) : Option (Value Float) :=
  match type with
  | "scalar" => j.number?.map .scalar
  | "int" => (j.int?.filter Number.fitsInt).map fun n => .int (Int64.ofInt n)
  | "bool" => j.bool?.map .bool
  | "string" => j.text?.map .string
  | _ => none

mutual

/-- Reads a value beside the name of its type. -/
def Value.ofJson? : Json → Option (Value Float)
  | .object members =>
      match ((Json.object members).member? "type").bind Json.text? with
      | some type => taggedValue? type members
      | none => none
  | _ => none

/-- The value among the members of an object, given the name of its type. -/
def taggedValue? (type : String) : List (String × Json) → Option (Value Float)
  | [] => none
  | (name, content) :: rest =>
      if name = "value" then contentValue? type content else taggedValue? type rest

/-- The value of a type. -/
def contentValue? (type : String) : Json → Option (Value Float)
  | .list items => if type = "list" then (itemValues? items).map .list else none
  | .object members =>
      if type = "record" then
        (fieldValues? members).map fun fields => .record (Fields.ofList fields)
      else partsValue? type members
  | other => leafValue? type other

/-- Several values. -/
def itemValues? : List Json → Option (List (Value Float))
  | [] => some []
  | item :: rest => do
      let value ← Value.ofJson? item
      return value :: (← itemValues? rest)

/-- Several fields. -/
def fieldValues? : List (String × Json) → Option (List (String × Value Float))
  | [] => some []
  | (name, item) :: rest => do
      let value ← Value.ofJson? item
      return (name, value) :: (← fieldValues? rest)

end

mutual

/-- Reads a type. -/
def ValueType.ofJson? : Json → Option ValueType
  | .string name => if name = "any" then some .any else ValueType.ofName? name none
  | .object [("enum", .list members)] => (members.mapM Json.text?).map .enum
  | .object [("list", item)] => (ValueType.ofJson? item).map .list
  | .object [("record", .object members)] =>
      (fieldTypes? members).map fun fields => .record (Fields.ofList fields)
  | _ => none

/-- Reads the types of fields. -/
def fieldTypes? : List (String × Json) → Option (List (String × ValueType))
  | [] => some []
  | (name, type) :: rest => do
      let type ← ValueType.ofJson? type
      return (name, type) :: (← fieldTypes? rest)

end

end PatternMarkup
