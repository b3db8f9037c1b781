import PatternMarkup.Formula.Builtin
import PatternMarkup.Formula.Scope
/-!
The value of a formula in a scope. A name that stands for a formula is read where it is bound;
one that is being read already makes an error, so evaluation always ends.
-/

namespace PatternMarkup

/-- What evaluation asks its surroundings for. -/
structure Environment (α : Type) where
  read : String → Except EvalError (Value α)
  function? : String → Option (HostFunction α)

variable {α : Type} [Number α]

/-- A value as a condition. -/
def Value.asCondition (v : Value α) : Except EvalError Bool :=
  match v.bool? with
  | some b => .ok b
  | none => .error (.badCast v.type.text ValueType.bool.text)

/-- The value that makes the right operand of an operator unnecessary, if the left one does. -/
def BinaryOp.shortcut? (op : BinaryOp) (left : Value α) : Option (Value α) :=
  match op, left with
  | .and, .bool false => some (.bool false)
  | .or, .bool true => some (.bool true)
  | _, _ => none

namespace Ast

mutual

/-- The value of a formula. -/
def evaluateWith (env : Environment α) : Ast α → Except EvalError (Value α)
  | literal value _ => .ok value
  | name n _ => env.read n
  | list items _ => do return .list (← evaluateAll env items)
  | unary op operand _ => do op.apply (← operand.evaluateWith env)
  | binary op left right _ => do
      let v ← left.evaluateWith env
      match op.shortcut? v with
      | some w => return w
      | none => op.apply v (← right.evaluateWith env)
  | conditional condition then_ else_ _ => do
      let v ← condition.evaluateWith env
      if ← v.asCondition then then_.evaluateWith env else else_.evaluateWith env
  | call function arguments _ =>
      match env.function? function with
      | some host =>
          if arguments.length = host.parameters.length then do
            host.call (← evaluateAll env arguments)
          else
            .error (.arity function (.exactly host.parameters.length) arguments.length)
      | none =>
          match Builtin.ofName? function with
          | none => .error (.undefinedName function)
          | some .choose => evaluateChoice env arguments
          | some b => do b.call (← evaluateAll env arguments)
  | member object m _ => do (← object.evaluateWith env).member m
  | index object i _ => do
      let v ← object.evaluateWith env
      v.item (← i.evaluateWith env)
  | interpolation parts _ => do return .string (← evaluateText env parts)

/-- The values of several formulas, one after another. -/
def evaluateAll (env : Environment α) : List (Ast α) → Except EvalError (List (Value α))
  | [] => .ok []
  | ast :: rest => do
      let v ← ast.evaluateWith env
      return v :: (← evaluateAll env rest)

/-- The value that `if` takes; the other one is not evaluated. -/
def evaluateChoice (env : Environment α) : List (Ast α) → Except EvalError (Value α)
  | [condition, then_, else_] => do
      let v ← condition.evaluateWith env
      if ← v.asCondition then then_.evaluateWith env else else_.evaluateWith env
  | arguments => do Builtin.choose.call (← evaluateAll env arguments)

/-- The texts of the values of several formulas, one after another. -/
def evaluateText (env : Environment α) : List (Ast α) → Except EvalError String
  | [] => .ok ""
  | ast :: rest => do
      let v ← ast.evaluateWith env
      return v.text ++ (← evaluateText env rest)

end

end Ast

/-! ### Names -/

/-- A variable: its name, and the number of levels from the one that binds it outward. -/
abbrev VariableKey := String × Nat

/-- The variables of some levels that stand for formulas. -/
def formulaKeys : List (Frame α) → List VariableKey
  | [] => []
  | frame :: outer =>
      let bound := frame.bindings.filter (·.2.formula?.isSome)
      bound.map (fun (name, _) => (name, outer.length + 1)) ++ formulaKeys outer

/-- The names from a variable being read to the one that needs it again; `reading` lists the
variables being read, the last one first. -/
def recursionChain (reading : List VariableKey) (key : VariableKey) : List String :=
  key.1 :: ((reading.takeWhile (· != key)).reverse.map (·.1) ++ [key.1])

/-- The variables besides a given one. -/
def dropKey (key : VariableKey) (keys : List VariableKey) : List VariableKey :=
  keys.filter (· != key)

theorem length_dropKey_lt {key : VariableKey} {keys : List VariableKey} (h : key ∈ keys) :
    (dropKey key keys).length < keys.length :=
  List.length_filter_lt_length_iff_exists.2 ⟨key, h, by simp⟩

/-- The value of a name. Of the variables that stand for formulas, those in `reading` are being
read, the last one first, and those in `unread` are not. -/
def readName (frames : List (Frame α)) (reading unread : List VariableKey) (name : String) :
    Except EvalError (Value α) :=
  match resolveIn name frames with
  | none =>
      match Builtin.constant? name with
      | some v => .ok v
      | none => .error (.undefinedName name)
  | some (b, owner) =>
      match b.content with
      | .bound (.constant v) => .ok v
      | .bound (.formula f) =>
          let key : VariableKey := (name, owner.length)
          if key ∈ unread then
            f.ast.evaluateWith
              { read := fun n => readName owner (key :: reading) (dropKey key unread) n
                function? := fun n => functionIn n owner }
          else .error (.recursion (recursionChain reading key))
      | _ => .error (b.missing name)
termination_by unread.length
decreasing_by
  rename_i h
  exact length_dropKey_lt h

namespace Scope

/-- What a scope offers to evaluation. -/
def environment (s : Scope α) : Environment α where
  read name := readName s.frames [] (formulaKeys s.frames) name
  function? := s.function?

end Scope

/-- The value of a formula in a scope. -/
def Ast.evaluate (s : Scope α) (ast : Ast α) : Except EvalError (Value α) :=
  ast.evaluateWith s.environment

end PatternMarkup
