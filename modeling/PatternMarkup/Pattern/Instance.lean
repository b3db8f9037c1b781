import PatternMarkup.Markup.Document
import PatternMarkup.Pattern.Basic
/-!
Instances: the values that one use of a pattern supplies, as attributes in text form and as
entries that are values already.
-/

namespace PatternMarkup

/-- An attribute of an instance. -/
structure InstanceAttribute where
  name : String
  value : String
  nameSpan : Span
  valueSpan : Span
deriving Repr, DecidableEq, Inhabited

/-- The values one use of a pattern supplies. -/
structure Instance (α : Type) where
  attributes : List InstanceAttribute := []
  entries : List (String × Value α) := []
  span : Span := ⟨0, 0, 0, 0⟩
deriving Inhabited

namespace Instance

variable {α : Type}

/-- Adds an attribute. Places are counted as if the attributes were written one after another
with a blank between them, so no two share a place. -/
def withAttribute (i : Instance α) (name value : String) : Instance α :=
  let offset := (i.attributes.getLast?.map fun a => a.valueSpan.stop + 2).getD 0
  let nameLength := byteLength name.toList
  let valueOffset := offset + nameLength + 2
  let added : InstanceAttribute := ⟨name, value, ⟨offset, 1, offset + 1, nameLength⟩,
    ⟨valueOffset, 1, valueOffset + 1, byteLength value.toList⟩⟩
  { i with attributes := i.attributes ++ [added] }

/-- Adds an entry in place of one of the same name. -/
def withEntry (i : Instance α) (name : String) (value : Value α) : Instance α :=
  { i with entries := Fields.insert name value i.entries }

/-- The instance written as an element. -/
def ofElement (span : Span) (e : Element) : Instance α :=
  { attributes := e.attributes.map fun a => ⟨a.name, a.value, a.nameSpan, a.valueSpan⟩
    span }

/-- The first attribute of a name. -/
def attribute? (i : Instance α) (name : String) : Option InstanceAttribute :=
  i.attributes.find? (·.name == name)

end Instance

/-! ### Examples -/

/-- The items of a list as it is written, from the byte `offset` on. `item` holds the characters
of the current item, the last one first, and `start` its first byte. Commas and blanks separate
items outside brackets, of which `depth` are open, and outside quotes. -/
def writtenItems (depth : Nat) (quote : Option Char) (start : Nat) (item : List Char)
    (offset : Nat) : List Char → List Fragment
  | [] => if item.isEmpty then [] else [⟨start, item.reverse⟩]
  | c :: rest =>
      let next := offset + c.utf8Size
      let start := if item.isEmpty then offset else start
      match quote with
      | some q =>
          writtenItems depth (if c = q then none else quote) start (c :: item) next rest
      | none =>
          if c = '"' ∨ c = '\'' then writtenItems depth (some c) start (c :: item) next rest
          else if c = '\x7b' ∨ c = '(' ∨ c = '[' then
            writtenItems (depth + 1) none start (c :: item) next rest
          else if c = '\x7d' ∨ c = ')' ∨ c = ']' then
            writtenItems (depth - 1) none start (if item.isEmpty then [] else c :: item) next rest
          else if depth = 0 ∧ (c = ',' ∨ isBlank c) then
            (if item.isEmpty then [] else [⟨start, item.reverse⟩]) ++
              writtenItems depth none next [] next rest
          else writtenItems depth none start (c :: item) next rest

variable {α : Type}

/-- The attributes that give a written value to a numbered attribute, item by item. -/
def numberedExample (name : String) (w : WrittenValue α) : List InstanceAttribute :=
  (writtenItems 0 none 0 [] 0 w.text.toList).mapIdx fun i item =>
    let span := w.span.narrow w.text item.range
    ⟨name ++ toString (i + 1), item.text, span, span⟩

/-- Adds the example of an argument under the name of an attribute. -/
def PlainArgument.addExample (a : PlainArgument α) (name : String) (i : Instance α) :
    Instance α :=
  match a.sample, a.source with
  | none, _ => i
  | some w, .singular =>
      { i with attributes := i.attributes ++ [⟨name, w.text, w.span, w.span⟩] }
  | some w, .numbered => { i with attributes := i.attributes ++ numberedExample name w }
  | some w, .entry =>
      match w.value.constant? with
      | some v => i.withEntry a.name v
      | none => i

/-- The attribute that gives the value of a member of a group. -/
def memberAttribute (group member : String) : String := group ++ "-" ++ member

/-- Adds the example of an argument. -/
def Argument.addExample (i : Instance α) : Argument α → Instance α
  | .plain a => a.addExample a.name i
  | .group g =>
      g.members.foldl (fun i m => m.addExample (memberAttribute g.name m.name) i) i

/-- An instance made of the examples of all arguments. -/
def Pattern.exampleInstance (p : Pattern α) : Instance α :=
  p.arguments.foldl Argument.addExample { span := p.span }

end PatternMarkup
