import PatternMarkup.Formula.Literal
import PatternMarkup.Pattern.Bind.Step
/-!
Reading attributes as expressions of a type. A formula with faults is kept, so that the figure
it belongs to is there; text that is no expression leaves nothing.
-/

namespace PatternMarkup

variable {α : Type} [Number α]

namespace Attribute

open Binder

/-- Reads an attribute as an expression of a type. Percentages refer to an axis, if there is
one. -/
def expression? (a : Attribute) (type : ValueType) (s : Scope α) (axis : Option Axis) :
    Binder (Option (Expression α (Value α))) := do
  match readTyped { scope := s, axis } type (.ofString a.value 0) with
  | .error e =>
      errorBecause (a.subSpan e.range) ("invalid " ++ type.text ++ " for '" ++ a.name ++ "'")
        e.message
      return none
  | .ok e =>
      let faults := (e.formula?.map fun f => f.ast.checkAs s type).getD []
      faults.forM fun f => error (a.subSpan f.range) f.fault.message
      return some e

/-- Reads an attribute as an expression of a type of this library. -/
def typed? {τ : Type} [Typed α τ] (a : Attribute) (s : Scope α) (axis : Option Axis) :
    Binder (Option (Expression α τ)) := do
  match ← a.expression? (Typed.valueType α τ) s axis with
  | none => return none
  | some e =>
      match (e.cast : Except EvalError (Expression α τ)) with
      | .ok e => return some e
      | .error fault =>
          error a.valueSpan fault.message
          return none

end Attribute

namespace Binder

variable {τ : Type} [Typed α τ]

/-- Reads an attribute that may be missing. -/
def typed? (e : Element) (name : String) (s : Scope α) (axis : Option Axis) :
    Binder (Option (Expression α τ)) := do
  match ← attribute? e name with
  | some a => a.typed? s axis
  | none => return none

/-- Reads an attribute that has a default. -/
def typedOr (e : Element) (name : String) (s : Scope α) (axis : Option Axis)
    (default : Expression α τ) : Binder (Expression α τ) := do
  return (← typed? e name s axis).getD default

/-- Reads an attribute that has to be there; without it, or if it is wrong, `otherwise` stands
in. -/
def required (e : Element) (name : String) (s : Scope α) (axis : Option Axis)
    (otherwise : Expression α τ) : Binder (Expression α τ) := do
  match ← requiredAttribute? e name with
  | some a => return (← a.typed? s axis).getD otherwise
  | none => return otherwise

/-- Reads an attribute whose value is needed without an instance. -/
def constant? (e : Element) (name : String) : Binder (Option τ) := do
  match ← attribute? e name with
  | none => return none
  | some a =>
      match (← a.typed? (.empty : Scope α) none : Option (Expression α τ)) with
      | none => return none
      | some (.constant v) => return some v
      | some (.formula _) =>
          error a.valueSpan ("'" ++ name ++ "' must be a constant")
          return none

/-- Reads the type that an attribute names, with its members in the attribute `values`. `what`
tells what has the type. Nothing stands for an attribute that is missing, and then for a name
that is no type. -/
def type? (e : Element) (what : String) : Binder (Option (Option ValueType)) := do
  let members ← attributeText? e "values"
  match ← attribute? e "type" with
  | none => return none
  | some a =>
      match ValueType.ofName? a.value members with
      | some type => return some (some type)
      | none =>
          error a.valueSpan ("unknown " ++ what ++ " type '" ++ trimText a.value ++ "'")
          return some none

end Binder

end PatternMarkup
