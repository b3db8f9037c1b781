import PatternMarkup.Json.Basic
import PatternMarkup.Text.Hexadecimal
/-!
The text of a JSON value, on one line or indented by two spaces a level. Numbers that are not
finite are written as null.
-/

namespace PatternMarkup.Json

/-- How one character stands in a JSON string. -/
def escapedChar (c : Char) : List Char :=
  match c with
  | '"' => ['\\', '"']
  | '\\' => ['\\', '\\']
  | '\n' => ['\\', 'n']
  | '\r' => ['\\', 'r']
  | '\t' => ['\\', 't']
  | '\x08' => ['\\', 'b']
  | '\x0c' => ['\\', 'f']
  | _ => if c.toNat < 32 then '\\' :: 'u' :: hexUnit c.toNat else [c]

/-- A text as a JSON string. -/
def quotedString (s : String) : String :=
  String.ofList ('"' :: s.toList.flatMap escapedChar ++ ['"'])

/-- The text of a number. -/
def numberText (x : Float) : String :=
  if x.isFinite then Double.write NumberLayout.report x else "null"

/-- A new line, indented by `depth` levels. -/
def newLine (depth : Nat) : String := "".pushn ' ' (2 * depth) |> ("\n" ++ ·)

/-- Pieces between brackets: on lines of their own if the text is indented. -/
def bracketed (indent : Option Nat) (left right : String) (pieces : List String) : String :=
  match indent, pieces with
  | _, [] => left ++ right
  | none, _ => left ++ ",".intercalate pieces ++ right
  | some depth, _ =>
      left ++ newLine (depth + 1) ++ ("," ++ newLine (depth + 1)).intercalate pieces ++
        newLine depth ++ right

mutual

/-- The text of a value, at a depth of indentation or on one line. -/
def write (indent : Option Nat) : Json → String
  | null => "null"
  | bool b => if b then "true" else "false"
  | int n => toString n
  | float x => numberText x
  | string s => quotedString s
  | list items => bracketed indent "[" "]" (writeAll (indent.map (· + 1)) items)
  | object members =>
      bracketed indent "\x7b" "\x7d" (writeMembers (indent.map (· + 1)) indent.isSome members)

/-- The texts of several values. -/
def writeAll (indent : Option Nat) : List Json → List String
  | [] => []
  | item :: rest => item.write indent :: writeAll indent rest

/-- The texts of several members. -/
def writeMembers (indent : Option Nat) (spaced : Bool) : List (String × Json) → List String
  | [] => []
  | (name, value) :: rest =>
      (quotedString name ++ (if spaced then ": " else ":") ++ value.write indent) ::
        writeMembers indent spaced rest

end

/-- The text of a value on one line. -/
def compact (j : Json) : String := j.write none

/-- The text of a value, indented. -/
def pretty (j : Json) : String := j.write (some 0)

end PatternMarkup.Json
