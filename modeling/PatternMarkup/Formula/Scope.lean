import PatternMarkup.Formula.Ast
/-!
Scopes: what names and functions stand for, level by level. The innermost level comes first; a
formula bound to a name is read in the level that binds it and those around that one.
-/

namespace PatternMarkup

/-- A formula with the type its value should have. -/
structure Formula (α : Type) where
  ast : Ast α
  type : ValueType
deriving Inhabited

/-- A value known from the start, or a formula to be evaluated where it is needed. -/
inductive Expression (α τ : Type) where
  | constant (value : τ)
  | formula (formula : Formula α)

instance {α τ : Type} [Inhabited τ] : Inhabited (Expression α τ) := ⟨.constant default⟩

/-- What a name stands for. -/
inductive BindingContent (α : Type) where
  | bound (value : Expression α (Value α))
  /-- A name that is known but has no value yet. -/
  | declared
  /-- A name whose value could not be had. -/
  | failed (error : EvalError)
deriving Inhabited

/-- A name's type and what it stands for. -/
structure Binding (α : Type) where
  type : ValueType
  content : BindingContent α
deriving Inhabited

/-- A function that the surroundings of a document supply. -/
structure HostFunction (α : Type) where
  name : String
  parameters : List ValueType
  returns : ValueType
  call : List (Value α) → Except EvalError (Value α)

/-- The names and functions of one level, each name once. -/
structure Frame (α : Type) where
  bindings : List (String × Binding α) := []
  functions : List (HostFunction α) := []
deriving Inhabited

/-- Levels of names and functions, the innermost first. -/
structure Scope (α : Type) where
  frames : List (Frame α)

instance {α : Type} : Inhabited (Scope α) := ⟨⟨[]⟩⟩

variable {α : Type}

namespace Binding

/-- A name with a value. -/
def ofValue (value : Value α) : Binding α := ⟨value.type, .bound (.constant value)⟩

/-- A name without a value. -/
def declared (type : ValueType) : Binding α := ⟨type, .declared⟩

/-- The value, if there is one. -/
def value? (b : Binding α) : Option (Expression α (Value α)) :=
  match b.content with
  | .bound value => some value
  | _ => none

/-- Why there is no value, if that is known. -/
def failure? (b : Binding α) : Option EvalError :=
  match b.content with
  | .failed error => some error
  | _ => none

/-- The error of using the name without a value. -/
def missing (b : Binding α) (name : String) : EvalError := b.failure?.getD (.unbound name)

/-- The formula the name stands for, if it stands for one. -/
def formula? (b : Binding α) : Option (Formula α) :=
  match b.content with
  | .bound (.formula f) => some f
  | _ => none

end Binding

namespace Frame

/-- What a name stands for in this level. -/
def binding? (frame : Frame α) (name : String) : Option (Binding α) :=
  (frame.bindings.find? (·.1 == name)).map (·.2)

/-- Gives a name a new meaning. -/
def bind (frame : Frame α) (name : String) (b : Binding α) : Frame α :=
  { frame with bindings := (name, b) :: frame.bindings.filter (·.1 != name) }

/-- The function of a name in this level. -/
def function? (frame : Frame α) (name : String) : Option (HostFunction α) :=
  frame.functions.find? (·.name == name)

/-- Adds a function in place of one with the same name. -/
def define (frame : Frame α) (f : HostFunction α) : Frame α :=
  { frame with functions := f :: frame.functions.filter (·.name != f.name) }

end Frame

/-! ### Levels -/

/-- What a name stands for, and the levels from the one that binds it outward. -/
def resolveIn (name : String) : List (Frame α) → Option (Binding α × List (Frame α))
  | [] => none
  | frame :: outer =>
      match frame.binding? name with
      | some b => some (b, frame :: outer)
      | none => resolveIn name outer

/-- The innermost function of a name. -/
def functionIn (name : String) : List (Frame α) → Option (HostFunction α)
  | [] => none
  | frame :: outer => (frame.function? name).or (functionIn name outer)

namespace Scope

/-- One level without names. -/
def empty : Scope α := ⟨[{}]⟩

/-- A new level inside a scope. -/
def child (s : Scope α) : Scope α := ⟨{} :: s.frames⟩

/-- Changes the innermost level. -/
def mapInner (s : Scope α) (f : Frame α → Frame α) : Scope α :=
  match s.frames with
  | [] => ⟨[f {}]⟩
  | frame :: outer => ⟨f frame :: outer⟩

/-- Gives a name a new meaning in the innermost level. -/
def bind (s : Scope α) (name : String) (b : Binding α) : Scope α := s.mapInner (·.bind name b)

/-- Gives a name a value in the innermost level; the type is that of the value. -/
def bindValue (s : Scope α) (name : String) (value : Value α) : Scope α :=
  s.bind name (.ofValue value)

/-- Makes a name known without a value. -/
def declare (s : Scope α) (name : String) (type : ValueType) : Scope α :=
  s.bind name (.declared type)

/-- Adds a function to the innermost level. -/
def define (s : Scope α) (f : HostFunction α) : Scope α := s.mapInner (·.define f)

/-- What a name stands for. -/
def lookup? (s : Scope α) (name : String) : Option (Binding α) :=
  (resolveIn name s.frames).map (·.1)

/-- The function of a name. -/
def function? (s : Scope α) (name : String) : Option (HostFunction α) := functionIn name s.frames

/-- Whether a name is known. -/
def contains (s : Scope α) (name : String) : Bool := (s.lookup? name).isSome

/-- Whether a name is bound in the innermost level. -/
def containsLocally (s : Scope α) (name : String) : Bool :=
  s.frames.head?.any fun frame => (frame.binding? name).isSome

/-- Whether a name or function hides what every formula knows by that name. -/
def shadows (s : Scope α) (name : String) : Bool := s.contains name || (s.function? name).isSome

/-- The type of a name. -/
def typeOf? (s : Scope α) (name : String) : Option ValueType := (s.lookup? name).map (·.type)

/-- Whether there is no level around the innermost one. -/
def isOutermost (s : Scope α) : Bool := decide (s.frames.length ≤ 1)

/-- Every name with its type, in the order of names. -/
def names (s : Scope α) : List (String × ValueType) :=
  Fields.ofList (s.frames.reverse.flatMap fun frame =>
    frame.bindings.reverse.map fun (name, b) => (name, b.type))

end Scope

end PatternMarkup
