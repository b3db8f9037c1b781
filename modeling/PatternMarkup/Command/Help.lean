import PatternMarkup.Command.Argument
/-!
What the program says about its commands: a summary, how to call a command, and tables of its
words and options.
-/

namespace PatternMarkup

/-- The name of the program. -/
def programName : String := "stencil"

/-- The version of the program. -/
def programVersion : String := "0.1.0"

/-- A title and rows of two columns, the second of which starts below itself. -/
def helpTable (title : String) (rows : List (String × String)) : List String :=
  let width := (rows.map (·.1.length)).foldl max 0
  if rows.isEmpty then []
  else
    ["", title ++ ":"] ++ rows.map fun (left, right) =>
      "  " ++ left.pushn ' ' (width + 2 - left.length) ++ right

/-- How an option is given, without its letter. -/
def OptionForm.written (form : OptionForm) : String :=
  "--" ++ form.name ++ (form.value.map fun v => " <" ++ v.name ++ ">").getD ""

/-- The row of an option. Options without a letter stand where the others have their names. -/
def OptionForm.row (form : OptionForm) : String × String :=
  let letter := (form.letter.map fun c => String.ofList ['-', c, ',', ' ']).getD "    "
  (letter ++ form.written, form.help)

/-- How a word is given. -/
def WordForm.written (form : WordForm) : String :=
  if form.isRepeated then "[" ++ form.value.name ++ "]..." else "<" ++ form.value.name ++ ">"

namespace CommandForm

/-- How a command is called. Options that are required are named one by one. -/
def usage (c : CommandForm) (path : List String) : String :=
  let (required, free) := c.options.partition (·.isRequired)
  let free := if free.any (· != helpOption) then ["[OPTIONS]"] else []
  "Usage: " ++ " ".intercalate
    (path ++ free ++ required.map OptionForm.written ++ c.words.map WordForm.written)

/-- What is said about a command of the program. -/
def helpLines (c : CommandForm) : List String :=
  [c.help, "", c.usage [programName, c.name]] ++
    helpTable "Arguments" (c.words.map fun w => (w.written, w.help)) ++
    helpTable "Options" (c.options.map OptionForm.row)

/-- What is said about the program itself, whose commands are given. -/
def programLines (program : CommandForm) (commands : List CommandForm) : List String :=
  [program.help, "", program.usage [programName]] ++
    helpTable "Commands" (commands.map fun c => (c.name, c.help)) ++
    helpTable "Options" (program.options.map OptionForm.row)

end CommandForm

end PatternMarkup
