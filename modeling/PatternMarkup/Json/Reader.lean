import PatternMarkup.Json.Lexeme
import PatternMarkup.Json.Shape
/-!
Reading JSON: the lexemes of a text are taken in one after another, with a stack of the lists and
objects that are open. The shape of a value is looked at while it is read, so that of all faults
of a text, in its form or its shapes, the leftmost is found.
-/

namespace PatternMarkup

/-- A list that is not closed yet, its items from the last to the first. -/
structure OpenList where
  shape : JsonShape
  items : List Json := []
deriving Inhabited

/-- An object that is not closed yet, its members from the last to the first, and the name that
was read last. -/
structure OpenObject where
  shape : JsonShape
  members : List (String × Json) := []
  name : String := ""
deriving Inhabited

/-- A list or an object around what is read. -/
inductive JsonFrame where
  | list (l : OpenList)
  | object (o : OpenObject)
deriving Inhabited

/-- What may come next in a list. -/
inductive ListExpectation where
  /-- An item or the end of the list just opened. -/
  | firstItem
  /-- A comma or the end of the list. -/
  | separator
  /-- The end of the list after a comma, although no item may follow. -/
  | noItem
deriving Repr, DecidableEq, Inhabited

/-- What may come next in an object. -/
inductive ObjectExpectation where
  /-- A name or the end of the object just opened. -/
  | firstName
  /-- A name after a comma. -/
  | name
  | colon
  /-- A comma or the end of the object. -/
  | separator
  /-- Nothing: the name just read stands twice. -/
  | repeatedName
deriving Repr, DecidableEq, Inhabited

/-- A JSON text read in part. -/
inductive JsonProgress where
  /-- A value comes next; inside a list it may follow a comma. -/
  | value (shape : JsonShape) (afterComma : Bool) (outer : List JsonFrame)
  | inList (l : OpenList) (next : ListExpectation) (outer : List JsonFrame)
  | inObject (o : OpenObject) (next : ObjectExpectation) (outer : List JsonFrame)
  /-- The value is complete. -/
  | finished (j : Json)
deriving Inhabited

namespace OpenList

/-- The shape of the next item, if one may follow. -/
def next? (l : OpenList) : Option JsonShape := l.shape.itemAfter? l.items

/-- The list with one more item. -/
def add (l : OpenList) (value : Json) : OpenList :=
  if l.shape.isIgnored then l else { l with items := value :: l.items }

/-- The value of the list, closed. -/
def close (l : OpenList) : Json := l.shape.ofItems l.items.reverse

end OpenList

namespace OpenObject

/-- The object with one more member, whose name was read before. -/
def add (o : OpenObject) (value : Json) : OpenObject :=
  if o.shape.keeps o.name then { o with members := (o.name, value) :: o.members } else o

/-- Whether a name stands twice that may not. -/
def repeats (o : OpenObject) (name : String) : Bool :=
  o.shape.isField name && o.members.any (·.1 == name)

/-- The value of the object, closed. -/
def close (o : OpenObject) : Json := .object o.members.reverse

end OpenObject

namespace JsonProgress

/-- Takes in a complete value. -/
def complete (j : Json) : List JsonFrame → JsonProgress
  | [] => .finished j
  | .list l :: outer => .inList (l.add j) .separator outer
  | .object o :: outer => .inObject (o.add j) .separator outer

/-- A problem that the first byte of a lexeme shows. -/
def refuse (lexeme : JsonLexeme) (problem : JsonProblem) : Except JsonFault JsonProgress :=
  .error ⟨problem, lexeme.range.start + 1⟩

/-- Continues with a value whose parts are still to be read, if it may have this shape. -/
def ifAdmitted (shape : JsonShape) (j : Json) (offset : Nat) (next : JsonProgress) :
    Except JsonFault JsonProgress :=
  if shape.admits j then .ok next
  else .error ⟨.wrongType j.description shape.description, offset⟩

/-- Passes over a number, which may be of any size. -/
def passNumber : Except JsonFault Json → Except JsonFault Unit
  | .ok _ => .ok ()
  | .error ⟨.numberOutOfRange, _⟩ => .ok ()
  | .error ⟨.valueBreaksOff, offset⟩ => .error ⟨.invalidNumber, offset⟩
  | .error fault => .error fault

/-- Takes in a lexeme where a value has to start. -/
def startValue (shape : JsonShape) (outer : List JsonFrame) (lexeme : JsonLexeme) :
    Except JsonFault JsonProgress :=
  let range := lexeme.range
  let atom (j : Json) := ifAdmitted shape j range.stop (complete j outer)
  match lexeme.kind with
  | .openList => ifAdmitted shape (.list []) range.start (.inList ⟨shape, []⟩ .firstItem outer)
  | .openObject =>
      ifAdmitted shape (.object []) range.start (.inObject ⟨shape, [], ""⟩ .firstName outer)
  | .word reading => do atom (← reading)
  | .number reading =>
      if shape.isIgnored then do
        passNumber reading
        return complete .null outer
      else do atom (← reading)
  | .string text passed =>
      if shape.isIgnored then do
        passed
        return complete .null outer
      else do atom (.string (← text))
  | .closeList | .closeObject | .comma | .colon | .junk => refuse lexeme .expectedValue

/-- Takes in a lexeme where a name has to stand. A name is read to its end before it is known to
stand twice. -/
def startMember (o : OpenObject) (outer : List JsonFrame) (lexeme : JsonLexeme) :
    Except JsonFault JsonProgress :=
  match lexeme.kind with
  | .string text passed =>
      if o.shape.isIgnored then do
        passed
        return .inObject o .colon outer
      else do
        let name ← text
        let next := if o.repeats name then .repeatedName else .colon
        return .inObject { o with name } next outer
  | _ => refuse lexeme .nameNotString

/-- Takes in the next lexeme of a list. -/
def stepList (l : OpenList) (next : ListExpectation) (outer : List JsonFrame)
    (lexeme : JsonLexeme) : Except JsonFault JsonProgress :=
  match next, lexeme.kind, l.next? with
  | .noItem, .closeList, _ => refuse lexeme .trailingComma
  | .noItem, _, _ => refuse lexeme .trailingText
  | _, .closeList, _ => .ok (complete l.close outer)
  | .firstItem, _, some shape => startValue shape (.list l :: outer) lexeme
  | .firstItem, _, none => refuse lexeme .trailingText
  | .separator, .comma, some shape => .ok (.value shape true (.list l :: outer))
  | .separator, .comma, none => .ok (.inList l .noItem outer)
  | .separator, _, some _ => refuse lexeme .expectedListEnd
  | .separator, _, none => refuse lexeme .trailingText

/-- Takes in the next lexeme of an object. -/
def stepObject (o : OpenObject) (next : ObjectExpectation) (outer : List JsonFrame)
    (lexeme : JsonLexeme) : Except JsonFault JsonProgress :=
  match next, lexeme.kind with
  | .repeatedName, .closeObject => .error ⟨.duplicateMember o.name, lexeme.range.stop⟩
  | .repeatedName, _ => .error ⟨.duplicateMember o.name, lexeme.range.start⟩
  | .firstName, .closeObject => .ok (complete o.close outer)
  | .firstName, _ => startMember o outer lexeme
  | .name, .closeObject =>
      refuse lexeme (if o.shape.isIgnored then .nameNotString else .trailingComma)
  | .name, _ => startMember o outer lexeme
  | .colon, .colon => .ok (.value (o.shape.member o.name) false (.object o :: outer))
  | .colon, _ => refuse lexeme .expectedColon
  | .separator, .comma => .ok (.inObject o .name outer)
  | .separator, .closeObject => .ok (complete o.close outer)
  | .separator, _ => refuse lexeme .expectedObjectEnd

/-- Takes in the next lexeme. -/
def step (progress : JsonProgress) (lexeme : JsonLexeme) : Except JsonFault JsonProgress :=
  match progress with
  | .value shape afterComma outer =>
      match afterComma && !shape.isIgnored, lexeme.kind with
      | true, .closeList => refuse lexeme .trailingComma
      | _, _ => startValue shape outer lexeme
  | .inList l next outer => stepList l next outer lexeme
  | .inObject o next outer => stepObject o next outer lexeme
  | .finished _ => refuse lexeme .trailingText

/-- The value read, once the text has ended at the byte `stop`. -/
def finish (progress : JsonProgress) (stop : Nat) : Except JsonFault Json :=
  match progress with
  | .finished j => .ok j
  | .value _ _ _ => .error ⟨.valueBreaksOff, stop⟩
  | .inList _ .noItem _ => .error ⟨.trailingText, stop⟩
  | .inList _ _ _ => .error ⟨.listBreaksOff, stop⟩
  | .inObject o .name _ =>
      .error ⟨if o.shape.isIgnored then .objectBreaksOff else .valueBreaksOff, stop⟩
  | .inObject o .repeatedName _ => .error ⟨.duplicateMember o.name, stop⟩
  | .inObject _ _ _ => .error ⟨.objectBreaksOff, stop⟩

end JsonProgress

namespace Json

/-- Reads a JSON text that has to hold a value of the given shape. -/
def readAs (shape : JsonShape) (source : String) : Except JsonFault Json := do
  let lexemes := JsonLexeme.scan source.toList
  let progress ← lexemes.foldlM JsonProgress.step (.value shape false [])
  progress.finish source.utf8ByteSize

/-- Reads a JSON text. -/
def read (source : String) : Except JsonFault Json := readAs .anything source

end Json

end PatternMarkup
