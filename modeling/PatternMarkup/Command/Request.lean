import PatternMarkup.Command.Help
/-!
What a command line asks for: one of four commands, or what the program says about itself.
-/

namespace PatternMarkup

/-- A task of the program. -/
inductive Request where
  /-- Report on files, and on those in folders. -/
  | check (paths : List FilePath) (noUnused quiet : Bool)
  /-- Show the patterns of a file. -/
  | dump (file : FilePath) (pattern : Option String) (compact : Bool)
  /-- Lay a sliced rectangle out. -/
  | slice (reference : Size Float) (xs ys : List Float) (target : Rect Float)
      (point : Option (Point Float)) (compact : Bool)
  /-- Draw a pattern. -/
  | render (file : FilePath) (pattern : String) (size : Option (Size Float))
      (attributes_ : List (String × String)) (compact : Bool)
  /-- Say something about the program. -/
  | explain (lines : List String)

namespace Request

/-! ### Options -/

/-- The option that every command has. -/
def verboseOption : OptionForm :=
  { name := "verbose", letter := some 'v'
    help := "Log binder and renderer progress (RUST_LOG takes precedence)" }

/-- The option of one line of output. -/
def compactOption : OptionForm := { name := "compact", help := "Print compact JSON" }

/-- The option of a check that does not look for what is not used. -/
def noUnusedOption : OptionForm :=
  { name := "no-unused", help := "Do not warn about markup the binder never reads" }

/-- The option of a check that names only files with reports. -/
def quietOption : OptionForm :=
  { name := "quiet", letter := some 'q', help := "Only print files that have diagnostics" }

/-- The option of showing one pattern. -/
def patternOption : OptionForm :=
  { name := "pattern", letter := some 'p', value := some ⟨"PATTERN", .text⟩
    help := "Only dump this pattern (qualified or plain name)" }

/-- The size for which cuts are given. -/
def referenceOption : OptionForm :=
  { name := "reference", value := some ⟨"REFERENCE", .size⟩, isRequired := true
    help := "Reference size as W,H" }

/-- The cuts across. -/
def xsOption : OptionForm :=
  { name := "xs", value := some ⟨"XS", .numbers⟩, isRepeated := true
    help := "Horizontal cuts in reference space, comma separated" }

/-- The cuts down. -/
def ysOption : OptionForm :=
  { name := "ys", value := some ⟨"YS", .numbers⟩, isRepeated := true
    help := "Vertical cuts in reference space, comma separated" }

/-- The rectangle in which a sliced one is laid out. -/
def targetOption : OptionForm :=
  { name := "target", value := some ⟨"TARGET", .rect⟩, isRequired := true
    help := "Target rectangle as X,Y,W,H" }

/-- The point to be mapped. -/
def pointOption : OptionForm :=
  { name := "point", value := some ⟨"POINT", .point⟩
    help := "Reference-space point to map, as X,Y" }

/-- The size of a drawing. -/
def sizeOption : OptionForm :=
  { name := "size", value := some ⟨"SIZE", .size⟩
    help := "Target size as W,H (defaults to the pattern's example size)" }

/-- An attribute of the pattern that is drawn. -/
def argumentOption : OptionForm :=
  { name := "arg", letter := some 'a', value := some ⟨"ARGS", .assignment⟩, isRepeated := true
    help := "Argument as name=value; repeat for several. Without any, the pattern's example " ++
      "values are used" }

/-! ### Commands -/

/-- The command that reports on files. -/
def checkForm : CommandForm :=
  { name := "check", help := "Parse and bind .stencil files and report diagnostics"
    words := [{
      value := ⟨"PATHS", .path⟩, isRepeated := true
      help := "Files or directories to check (defaults to the configured source directory)" }]
    options := [noUnusedOption, verboseOption, quietOption, helpOption] }

/-- The command that shows patterns. -/
def dumpForm : CommandForm :=
  { name := "dump", help := "Print the bound patterns of a file as JSON"
    words := [{ value := ⟨"FILE", .path⟩, help := "The .stencil file to bind" }]
    options := [patternOption, verboseOption, compactOption, helpOption] }

/-- The command that lays a sliced rectangle out. -/
def sliceForm : CommandForm :=
  { name := "slice", help := "Compute an n-slice scaling and optionally map a point"
    options := [referenceOption, verboseOption, xsOption, ysOption, targetOption, pointOption,
      compactOption, helpOption] }

/-- The command that draws a pattern. -/
def renderForm : CommandForm :=
  { name := "render", help := "Draw a pattern onto a recording surface and print the commands"
    words := [{ value := ⟨"FILE", .path⟩, help := "The .stencil file holding the pattern" },
      { value := ⟨"PATTERN", .text⟩, help := "Pattern to draw (qualified or plain name)" }]
    options := [sizeOption, verboseOption, argumentOption, compactOption, helpOption] }

/-- The command that explains the others. -/
def helpForm : CommandForm :=
  { name := "help", help := "Print this message or the help of the given subcommand(s)"
    words := [{
      value := ⟨"COMMAND", .text⟩, isRepeated := true
      help := "Print help for the subcommand(s)" }] }

/-- The commands of the program. -/
def commandForms : List CommandForm := [checkForm, dumpForm, sliceForm, renderForm, helpForm]

/-- The program, whose first word is a command. -/
def programForm : CommandForm :=
  { name := programName
    help := "Command line front end for checking, dumping and rendering stencil patterns"
    words := [{ value := ⟨"COMMAND", .text⟩, help := "" }]
    options := [verboseOption, helpOption, versionOption] }

/-- What the program says about all of its commands. -/
def programHelp : List String := programForm.programLines commandForms

/-- Says something about one command, or about all. -/
def explain? : List String → Option Request
  | [] => some (explain programHelp)
  | [name] => (commandForms.find? (·.name == name)).map fun c => explain c.helpLines
  | _ => none

/-! ### Reading -/

/-- Makes a request of the words after `check`. -/
def ofCheck? (g : GivenWords) : Option Request := do
  return check (← g.others.mapM readPath?) (g.hasOption noUnusedOption) (g.hasOption quietOption)

/-- Makes a request of the words after `dump`. -/
def ofDump? (g : GivenWords) : Option Request :=
  match g.others with
  | [file] => do
      return dump (← readPath? file) (g.value? patternOption) (g.hasOption compactOption)
  | _ => none

/-- Makes a request of the words after `slice`. -/
def ofSlice? (g : GivenWords) : Option Request := do
  let cuts (form : OptionForm) : Option (List Float) :=
    ((g.values form).mapM readNumbers?).map List.flatten
  let point ← match g.value? pointOption with
    | some text => (readPoint? text).map some
    | none => some none
  return slice (← (g.value? referenceOption).bind readSize?) (← cuts xsOption) (← cuts ysOption)
    (← (g.value? targetOption).bind readRect?) point (g.hasOption compactOption)

/-- Makes a request of the words after `render`. -/
def ofRender? (g : GivenWords) : Option Request :=
  match g.others with
  | [file, pattern] => do
      let size ← match g.value? sizeOption with
        | some text => (readSize? text).map some
        | none => some none
      return render (← readPath? file) pattern size
        (← (g.values argumentOption).mapM readAssignment?) (g.hasOption compactOption)
  | _ => none

/-- Reads the words after a command, which may ask for help. -/
def readWith? (form : CommandForm) (make? : GivenWords → Option Request) (words : List String) :
    Option Request := do
  let g ← GivenWords.read? form words
  if g.hasOption helpOption then some (explain form.helpLines) else make? g

/-- Reads a command and the words after it. -/
def readCommand? (name : String) (words : List String) : Option Request :=
  match name with
  | "check" => readWith? checkForm ofCheck? words
  | "dump" => readWith? dumpForm ofDump? words
  | "slice" => readWith? sliceForm ofSlice? words
  | "render" => readWith? renderForm ofRender? words
  | "help" => explain? words
  | _ => none

/-- Reads words after the options `g` of the program: more of them, and then a command. -/
def readFrom? (g : GivenWords) : List String → Option Request
  | [] => none
  | word :: rest =>
      match word.toList with
      | '-' :: _ :: _ => do
          let g ← g.readWord? programForm word
          if g.hasOption helpOption then some (explain programHelp)
          else if g.hasOption versionOption then
            some (explain [programName ++ " " ++ programVersion])
          else if g.isLiteral then none
          else readFrom? g rest
      | _ => readCommand? word rest

/-- Reads a command line. -/
def read? (words : List String) : Option Request := readFrom? {} words

end Request

end PatternMarkup
