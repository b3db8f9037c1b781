import PatternMarkup.Formula.ValueType
import PatternMarkup.Text.Bytes
/-!
What can go wrong with formulas and literals: their form, their evaluation, and their check
against declared types.
-/

namespace PatternMarkup

/-- How many arguments a function takes. -/
structure Arity where
  least : Nat
  /-- The greatest number, if there is one. -/
  greatest : Option Nat
deriving Repr, DecidableEq, Inhabited

namespace Arity

/-- One number only. -/
def exactly (n : Nat) : Arity := ⟨n, some n⟩

/-- All numbers between two bounds. -/
def between (least greatest : Nat) : Arity := ⟨least, some greatest⟩

/-- All numbers from a bound on. -/
def atLeast (n : Nat) : Arity := ⟨n, none⟩

/-- Whether a number of arguments is right. -/
def accepts (arity : Arity) (count : Nat) : Bool :=
  decide (arity.least ≤ count) && arity.greatest.all (fun greatest => decide (count ≤ greatest))

/-- The numbers as reports show them. -/
def text (arity : Arity) : String :=
  match arity.greatest with
  | some greatest =>
      if greatest = arity.least then toString greatest
      else toString arity.least ++ " to " ++ toString greatest
  | none => "at least " ++ toString arity.least

end Arity

/-- A fault in the form of a formula or a literal. -/
inductive FormatFault where
  | unexpectedCharacter
  | unexpectedToken (expected found : String)
  | unexpectedEnd (expected : String)
  | unclosedBrace
  | unmatchedBrace
  | invalidLiteral (expected text : String)
  | percentWithoutAxis (extent : String)
  | unknownTransform (name : String)
  | wrongCount (what expected : String) (found : Nat)
  | unknownEnumValue (value : String) (allowed : List String)
deriving Repr, DecidableEq, Inhabited

/-- What a report says about the fault. -/
def FormatFault.message : FormatFault → String
  | unexpectedCharacter => "unexpected character in formula"
  | unexpectedToken expected found => "expected " ++ expected ++ ", found " ++ found
  | unexpectedEnd expected => "formula ended early: expected " ++ expected
  | unclosedBrace => "'\x7b' is never closed"
  | unmatchedBrace =>
      "'\x7d' without a matching '\x7b'; write '\x7d\x7d' for a literal brace"
  | invalidLiteral expected text => "'" ++ text ++ "' is not a valid " ++ expected
  | percentWithoutAxis extent => "percentage needs '" ++ extent ++ "' in scope"
  | unknownTransform name => "unknown transform function '" ++ name ++ "'"
  | wrongCount what expected found =>
      what ++ " takes " ++ expected ++ " values, found " ++ toString found
  | unknownEnumValue value allowed =>
      "'" ++ value ++ "' is not one of: " ++ ", ".intercalate allowed

/-- A fault of form and the bytes it concerns. -/
structure FormatError where
  fault : FormatFault
  range : ByteRange
deriving Repr, DecidableEq, Inhabited

/-- What a report says about the error. -/
def FormatError.message (e : FormatError) : String := e.fault.message

/-- Why a formula has no value. -/
inductive EvalError where
  | undefinedName (name : String)
  | unbound (name : String)
  | arity (function : String) (expected : Arity) (found : Nat)
  | invalidOperands (operator left right : String)
  | badCast (source target : String)
  | divisionByZero
  /-- A variable whose value needs itself; the chain starts and ends with it. -/
  | recursion (chain : List String)
  | indexOutOfRange (index : Int) (length : Nat)
  | noSuchMember (member owner : String)
  | invalidArgument (function message : String)
deriving Repr, DecidableEq, Inhabited

/-- What a report says about the error. -/
def EvalError.message : EvalError → String
  | undefinedName name => "'" ++ name ++ "' is not defined"
  | unbound name => "'" ++ name ++ "' is declared but has no value"
  | arity function expected found =>
      "'" ++ function ++ "' expects " ++ expected.text ++ " arguments, got " ++ toString found
  | invalidOperands operator left right =>
      "cannot apply '" ++ operator ++ "' to " ++ left ++ " and " ++ right
  | badCast source target => "cannot use a " ++ source ++ " as " ++ target
  | divisionByZero => "division by zero"
  | recursion chain =>
      "'" ++ chain.headD "" ++ "' refers to itself: " ++ " -> ".intercalate chain
  | indexOutOfRange index length =>
      "index " ++ toString index ++ " is out of range for a list of " ++ toString length
  | noSuchMember member owner => owner ++ " has no member '" ++ member ++ "'"
  | invalidArgument function message =>
      "invalid argument to '" ++ function ++ "': " ++ message

/-- A fault that the check of a formula against declared types finds. -/
inductive TypeFault where
  | undefinedName (name : String)
  | unknownFunction (name : String)
  | arity (function : String) (expected : Arity) (found : Nat)
  | invalidOperands (operator left right : String)
  | mismatch (expected found : ValueType)
  | noSuchMember (member : String) (owner : ValueType)
deriving Inhabited

/-- What a report says about the fault. -/
def TypeFault.message : TypeFault → String
  | undefinedName name => "'" ++ name ++ "' is not defined"
  | unknownFunction name => "unknown function '" ++ name ++ "'"
  | arity function expected found =>
      "'" ++ function ++ "' expects " ++ expected.text ++ " arguments, got " ++ toString found
  | invalidOperands operator left right =>
      "cannot apply '" ++ operator ++ "' to " ++ left ++ " and " ++ right
  | mismatch expected found => "expected " ++ expected.text ++ ", found " ++ found.text
  | noSuchMember member owner => owner.text ++ " has no member '" ++ member ++ "'"

/-- A fault of types and the bytes it concerns. -/
structure TypeError where
  fault : TypeFault
  range : ByteRange
deriving Inhabited

end PatternMarkup
