import PatternMarkup.Fields
import PatternMarkup.Json.Basic
import PatternMarkup.Text.Hexadecimal
/-!
The canonical text of a JSON value: one line of ASCII without blanks, members sorted by name,
and numbers with a fraction or an exponent unless they are integers.
-/

namespace PatternMarkup.Json

/-- A code unit as an escape. -/
def unitEscape (n : Nat) : List Char := '\\' :: 'u' :: hexUnit n

/-- How one character stands in a canonical string; beyond `0xffff` as two code units. -/
def asciiChar (c : Char) : List Char :=
  if c = '"' then ['\\', '"']
  else if c = '\\' then ['\\', '\\']
  else if 32 ≤ c.toNat ∧ c.toNat ≤ 126 then [c]
  else if c.toNat < 0x10000 then unitEscape c.toNat
  else
    let n := c.toNat - 0x10000
    unitEscape (0xd800 + n / 0x400) ++ unitEscape (0xdc00 + n % 0x400)

/-- A text as a canonical string. -/
def asciiString (s : String) : String :=
  String.ofList ('"' :: s.toList.flatMap asciiChar ++ ['"'])

/-- The canonical text of a number. -/
def canonicalNumber (x : Float) : String :=
  if x.isFinite then Double.write NumberLayout.data x else "null"

mutual

/-- The canonical text of a value. -/
def canonical : Json → String
  | null => "null"
  | bool b => if b then "true" else "false"
  | int n => toString n
  | float x => canonicalNumber x
  | string s => asciiString s
  | list items => "[" ++ ",".intercalate (canonicalItems items) ++ "]"
  | object members =>
      let sorted := canonicalMembers [] members
      "\x7b" ++ ",".intercalate (sorted.map fun (name, text) => asciiString name ++ ":" ++ text) ++
        "\x7d"

/-- The canonical texts of several values. -/
def canonicalItems : List Json → List String
  | [] => []
  | item :: rest => item.canonical :: canonicalItems rest

/-- The canonical texts of members, put among those of the members before them. -/
def canonicalMembers (sorted : List (String × String)) :
    List (String × Json) → List (String × String)
  | [] => sorted
  | (name, value) :: rest => canonicalMembers (Fields.insert name value.canonical sorted) rest

end

end PatternMarkup.Json
