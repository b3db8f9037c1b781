import PatternMarkup.Text.Blank
/-!
References to elements by their ids, and the names that variables may have.
-/

namespace PatternMarkup

/-- The text after a beginning, if it starts so. -/
def afterStart? (start text : List Char) : Option (List Char) :=
  if start.isPrefixOf text then some (text.drop start.length) else none

/-- The text before an end, if it ends so. -/
def beforeEnd? (stop text : List Char) : Option (List Char) :=
  (afterStart? stop.reverse text.reverse).map List.reverse

/-- The text between quotes of the given kind, if it is quoted so. -/
def betweenQuotes? (quote : Char) (text : List Char) : Option (List Char) :=
  (afterStart? [quote] text).bind (beforeEnd? [quote])

/-- The text without the quotes around it, if there are any. -/
def withoutQuotes (text : List Char) : List Char :=
  ((betweenQuotes? '"' text).or (betweenQuotes? '\'' text)).getD text

/-- The text between `url(` and `)`, if it is written so. -/
def betweenUrl? (text : List Char) : Option (List Char) :=
  (afterStart? "url(".toList text).bind (beforeEnd? [')'])

/-- The id that `#id`, `url(#id)` or `url('#id')` refers to. -/
def referenceTarget? (text : String) : Option String :=
  let whole := trim text.toList
  let inner :=
    match betweenUrl? whole with
    | some inner => withoutQuotes (trim inner)
    | none => whole
  match inner with
  | '#' :: c :: rest => some (String.ofList (c :: rest))
  | _ => none

/-- Whether a text may be the name of a variable. -/
def isIdentifier (name : String) : Bool :=
  match name.toList with
  | [] => false
  | c :: rest => (c.isAlpha || c == '_') && rest.all fun d => d.isAlphanum || d == '_'

end PatternMarkup
