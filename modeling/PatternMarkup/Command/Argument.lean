import PatternMarkup.Files.Path
import PatternMarkup.Geometry.Basic
import PatternMarkup.Number.Double
import PatternMarkup.Text.Blank
/-!
Words of a command line: options by their names or letters, their values, and all other words.
A word that starts with a dash is never a value, and a word is looked at only after all words
before it have been found good. Values are numbers between commas, paths, and names with a value.
-/

namespace PatternMarkup

/-- Reads numbers between commas, with nothing around them. -/
def readNumbers? (text : String) : Option (List Float) :=
  (text.splitOn ",").mapM fun part => Double.read? part.toList

/-- Reads numbers between commas; blanks around them do not count. -/
def readSpacedNumbers? (text : String) : Option (List Float) :=
  (text.splitOn ",").mapM fun part => Double.read? (trimText part).toList

/-- Reads a size: two numbers. -/
def readSize? (text : String) : Option (Size Float) := do
  match ← readSpacedNumbers? text with
  | [width, height] => return ⟨width, height⟩
  | _ => none

/-- Reads a point: two numbers. -/
def readPoint? (text : String) : Option (Point Float) := do
  match ← readSpacedNumbers? text with
  | [x, y] => return ⟨x, y⟩
  | _ => none

/-- Reads a rectangle: four numbers. -/
def readRect? (text : String) : Option (Rect Float) := do
  match ← readSpacedNumbers? text with
  | [x, y, width, height] => return ⟨x, y, width, height⟩
  | _ => none

/-- Reads a name and a value around the first equals sign. -/
def readAssignment? (text : String) : Option (String × String) :=
  let name := trimText (String.ofList (text.toList.takeWhile (· != '=')))
  match text.toList.dropWhile (· != '=') with
  | _ :: value => if name = "" then none else some (name, String.ofList value)
  | [] => none

/-- Reads the path of a file; no path is empty. -/
def readPath? (text : String) : Option FilePath := if text = "" then none else some ⟨text⟩

/-- What a value has to be. -/
inductive ValueKind where
  | text
  | path
  | numbers
  | size
  | point
  | rect
  | assignment
deriving Repr, DecidableEq, Inhabited

/-- Whether a text is a value of the kind. -/
def ValueKind.accepts (text : String) : ValueKind → Bool
  | .text => true
  | path => (readPath? text).isSome
  | numbers => (readNumbers? text).isSome
  | size => (readSize? text).isSome
  | point => (readPoint? text).isSome
  | rect => (readRect? text).isSome
  | assignment => (readAssignment? text).isSome

/-! ### Words -/

/-- A value by the name that help gives it. -/
structure ValueForm where
  name : String
  kind : ValueKind
deriving Repr, DecidableEq, Inhabited

/-- An option of a command. -/
structure OptionForm where
  name : String
  letter : Option Char := none
  /-- The value, if the option takes one. -/
  value : Option ValueForm := none
  isRequired : Bool := false
  isRepeated : Bool := false
  help : String
deriving Repr, DecidableEq, Inhabited

/-- A word of a command that is no option. -/
structure WordForm where
  value : ValueForm
  /-- Whether any number of such words may be given. -/
  isRepeated : Bool := false
  help : String
deriving Repr, DecidableEq, Inhabited

/-- A command with its words and options, the options in the order in which help shows them. -/
structure CommandForm where
  name : String
  help : String
  words : List WordForm := []
  options : List OptionForm := []
deriving Repr, DecidableEq, Inhabited

/-- The form of the word after `count` others, if there may be one. -/
def CommandForm.wordAfter? (c : CommandForm) (count : Nat) : Option WordForm :=
  c.words[count]?.or (c.words.getLast?.filter (·.isRepeated))

/-- The option that asks for help. -/
def helpOption : OptionForm := { name := "help", letter := some 'h', help := "Print help" }

/-- The option that asks for the version. -/
def versionOption : OptionForm :=
  { name := "version", letter := some 'V', help := "Print version" }

/-- The words of a command line, sorted. -/
structure GivenWords where
  /-- The options by their names, those without a value with an empty one. -/
  options : List (String × String) := []
  others : List String := []
  /-- The option whose value comes next. -/
  pending : Option OptionForm := none
  /-- Whether all words from here on are no options. -/
  isLiteral : Bool := false
deriving Repr, Inhabited

namespace GivenWords

/-- Whether an option is given. -/
def hasOption (g : GivenWords) (form : OptionForm) : Bool := g.options.any (·.1 == form.name)

/-- The values of an option, in order. -/
def values (g : GivenWords) (form : OptionForm) : List String :=
  (g.options.filter (·.1 == form.name)).map (·.2)

/-- The value of an option given at most once. -/
def value? (g : GivenWords) (form : OptionForm) : Option String := (g.values form).head?

/-- Whether the program is asked about itself; what else is given does not count then. -/
def isQuestion (g : GivenWords) : Bool := g.hasOption helpOption || g.hasOption versionOption

/-- Adds an option without a value, unless it is there and may not be given again. -/
def addFlag? (g : GivenWords) (form : OptionForm) : Option GivenWords :=
  if !form.isRepeated && g.hasOption form then none
  else some { g with options := g.options ++ [(form.name, "")] }

/-- Adds an option with its value, which has to be good. -/
def addValue? (g : GivenWords) (form : OptionForm) (value : String) : Option GivenWords :=
  if (!form.isRepeated && g.hasOption form) || !form.value.any (·.kind.accepts value) then none
  else some { g with options := g.options ++ [(form.name, value)], pending := none }

/-- Adds a word that is no option, if there may be one more. -/
def addWord? (c : CommandForm) (g : GivenWords) (word : String) : Option GivenWords := do
  let form ← c.wordAfter? g.others.length
  if form.value.kind.accepts word then some { g with others := g.others ++ [word] } else none

/-- Reads the letters of a word that starts with one dash. -/
def readLetters? (c : CommandForm) (g : GivenWords) : List Char → Option GivenWords
  | [] => some g
  | letter :: rest =>
      if g.isQuestion then some g
      else do
        let form ← c.options.find? (·.letter == some letter)
        if form.value.isNone then readLetters? c (← g.addFlag? form) rest
        else
          match rest with
          | [] => return { g with pending := some form }
          | '=' :: value => g.addValue? form (String.ofList value)
          | value => g.addValue? form (String.ofList value)

/-- Reads the name of an option after two dashes, with its value if that is attached. -/
def readName? (c : CommandForm) (g : GivenWords) (text : List Char) : Option GivenWords := do
  let name := String.ofList (text.takeWhile (· != '='))
  let form ← c.options.find? (·.name == name)
  match text.dropWhile (· != '='), form.value with
  | [], none => g.addFlag? form
  | [], some _ => return { g with pending := some form }
  | _ :: _, none => none
  | _ :: value, some _ => g.addValue? form (String.ofList value)

/-- Reads the next word. -/
def readWord? (c : CommandForm) (g : GivenWords) (word : String) : Option GivenWords :=
  if g.isQuestion then some g
  else if g.isLiteral then g.addWord? c word
  else
    match word.toList, g.pending with
    | ['-', '-'], _ => some { g with isLiteral := true }
    | '-' :: '-' :: _ :: _, some _ => none
    | '-' :: '-' :: text, none => readName? c g text
    | '-' :: _ :: _, some _ => none
    | '-' :: letter :: text, none => readLetters? c g (letter :: text)
    | _, some form => g.addValue? form word
    | _, none => g.addWord? c word

/-- Sorts words; an option that needs a value has to get one. -/
def read? (c : CommandForm) (words : List String) : Option GivenWords := do
  let g ← words.foldlM (readWord? c) {}
  if g.pending.isSome then none else some g

end GivenWords

end PatternMarkup
