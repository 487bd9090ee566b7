/-
The command line.

Arguments are read from left to right. An option takes its value from the same argument or from the
next one; a value from the next argument is judged only when something follows it or the arguments
end, so that an unknown argument behind it is reported first. Short options may be written
together. Everything behind `--` is an operand, and there is at most one operand, the root of the
workspace. Help and version are answered as soon as they are met.
-/
import WorkspaceSession.Path.Basic
import WorkspaceSession.Text.Terminal

set_option autoImplicit false

namespace WorkspaceSession.CommandLine

/-! ## What can be asked for -/

/-- How the report is written. -/
inductive ReportFormat where
  /-- For people. -/
  | text
  /-- For tools. -/
  | json
  deriving DecidableEq, Repr

/-- What one run of the command is to do. -/
structure Options where
  /-- The root of the workspace. -/
  root? : Option Path := none
  /-- Classpath entries. -/
  classpath : List String := []
  /-- The library directory. -/
  libraryDirectory? : Option Path := none
  /-- A file with a client's settings. -/
  settingsFile? : Option Path := none
  /-- Files that are to be treated as open. -/
  openFiles : List Path := []
  /-- Virtual documents, each a name and a text around the first equals sign. -/
  virtualDocuments : List String := []
  /-- How the report is written, if that is given. -/
  format? : Option ReportFormat := none
  /-- Whether decisions are logged. -/
  verbose : Bool := false
  deriving DecidableEq, Repr

/-- The arguments that the command knows. -/
inductive Argument where
  /-- The root of the workspace. -/
  | root
  /-- A classpath entry. -/
  | classpath
  /-- The library directory. -/
  | libraryDirectory
  /-- The settings file. -/
  | settings
  /-- A file to treat as open. -/
  | openFile
  /-- A virtual document. -/
  | virtualDocument
  /-- The format of the report. -/
  | format
  /-- Logging. -/
  | verbose
  /-- Help. -/
  | help
  /-- The version. -/
  | version
  deriving DecidableEq, Repr

namespace Argument

/-- The options, in the order in which help lists them. -/
def options : List Argument :=
  [.classpath, .libraryDirectory, .settings, .openFile, .virtualDocument, .format, .verbose, .help,
    .version]

/-- The name behind two dashes; the operand goes by its name in capitals. -/
def longName : Argument → String
  | .root => "ROOT"
  | .classpath => "classpath"
  | .libraryDirectory => "lib-path"
  | .settings => "settings"
  | .openFile => "open"
  | .virtualDocument => "virtual"
  | .format => "format"
  | .verbose => "verbose"
  | .help => "help"
  | .version => "version"

/-- The name behind one dash, if there is one. -/
def shortName? : Argument → Option Char
  | .classpath => some 'c'
  | .format => some 'f'
  | .verbose => some 'v'
  | .help => some 'h'
  | .version => some 'V'
  | _ => none

/-- What messages call the value of an option, if it takes one. -/
def valueName? : Argument → Option String
  | .classpath => some "ENTRY"
  | .libraryDirectory => some "DIR"
  | .settings | .openFile => some "FILE"
  | .virtualDocument => some "NAME=TEXT"
  | .format => some "FORMAT"
  | _ => none

/-- Whether an option takes a value. -/
def takesValue (argument : Argument) : Bool :=
  argument.valueName?.isSome

/-- An argument as messages name it. -/
def shown (argument : Argument) : String :=
  if argument = .root then "[" ++ argument.longName ++ "]"
  else
    match argument.valueName? with
    | some value => "--" ++ argument.longName ++ " <" ++ value ++ ">"
    | none => "--" ++ argument.longName

/-- What an argument is for. -/
def description : Argument → String
  | .root => "Workspace root to walk; omit to consider open documents only"
  | .classpath =>
    "Additional classpath entry (archive path, or directory ending in \x60*\x60)"
  | .libraryDirectory => "Library auto-discovery directory (overrides GROOVYLS_LIB_PATH)"
  | .settings =>
    "JSON file with client settings, e.g. \x7b\"groovy\": \x7b\"classpath\": [...]\x7d\x7d"
  | .openFile => "Treat a file as open in the editor, with its current disk content"
  | .virtualDocument => "Open a virtual document NAME with the given text"
  | .format => "Output format"
  | .verbose => "Show debug logging on stderr"
  | .help => "Print help"
  | .version => "Print version"

/-- The option with a long name. -/
def ofLong? (name : String) : Option Argument :=
  options.find? fun argument => argument.longName = name

/-- The option with a short name. -/
def ofShort? (name : Char) : Option Argument :=
  options.find? fun argument => argument.shortName? = some name

end Argument

/-! ## Refusals and other endings -/

/-- Why arguments are refused. -/
inductive UsageError where
  /-- An option or operand has no value, or an empty one where that is none. -/
  | missingValue (argument : Argument)
  /-- A value is not one of those that the option knows. -/
  | invalidValue (value : String) (argument : Argument)
  /-- An option that takes no value has one. -/
  | unneededValue (value : String) (argument : Argument)
  /-- An option is given twice. -/
  | repeated (argument : Argument)
  /-- An argument is not known. -/
  | unexpected (argument : String)
  deriving DecidableEq, Repr

/-- The wording of a refusal. Words from the arguments are repeated as a terminal would show them. -/
def UsageError.message : UsageError → String
  | .missingValue a => "a value is required for '" ++ a.shown ++ "' but none was supplied"
  | .invalidValue value a =>
    "invalid value '" ++ Text.Terminal.printable value ++ "' for '" ++ a.shown ++ "'"
  | .unneededValue value a =>
    "unexpected value '" ++ Text.Terminal.printable value ++ "' for '" ++ a.shown
      ++ "' found; no more were expected"
  | .repeated a => "the argument '" ++ a.shown ++ "' cannot be used multiple times"
  | .unexpected argument =>
    "unexpected argument '" ++ Text.Terminal.printable argument ++ "' found"

/-- Why reading the arguments ends before their end. -/
inductive Stop where
  /-- The arguments are refused. -/
  | refused (error : UsageError)
  /-- Help is asked for, in full or in short. -/
  | help (full : Bool)
  /-- The version is asked for. -/
  | version
  deriving DecidableEq, Repr

/-! ## Taking values -/

/-- Takes over the value of an argument. -/
def Options.take (options : Options) (argument : Argument) (value : String) :
    Except Stop Options := do
  let once {α : Type} (former : Option α) : Except Stop Unit :=
    if former.isSome then throw (.refused (.repeated argument)) else return ()
  let path : Except Stop Path :=
    if value = "" then throw (.refused (.missingValue argument)) else return Path.ofString value
  match argument with
  | .root => once options.root?; return { options with root? := some (← path) }
  | .libraryDirectory =>
    once options.libraryDirectory?
    return { options with libraryDirectory? := some (← path) }
  | .settings => once options.settingsFile?; return { options with settingsFile? := some (← path) }
  | .openFile => return { options with openFiles := options.openFiles ++ [← path] }
  | .classpath => return { options with classpath := options.classpath ++ [value] }
  | .virtualDocument =>
    return { options with virtualDocuments := options.virtualDocuments ++ [value] }
  | .format =>
    once options.format?
    if value = "text" then return { options with format? := some .text }
    else if value = "json" then return { options with format? := some .json }
    else if value = "" then throw (.refused (.missingValue argument))
    else throw (.refused (.invalidValue value argument))
  | _ => throw (.refused (.unneededValue value argument))

/-- An argument whose value has not been judged yet; without a value it waits for one. -/
structure Pending where
  /-- The argument. -/
  argument : Argument
  /-- Its value, if it has come. -/
  value? : Option String
  deriving DecidableEq, Repr

/-- What has been read so far. -/
structure Reading where
  /-- The options that have been judged. -/
  options : Options := {}
  /-- The last argument with a value, if it has not been judged. -/
  pending? : Option Pending := none
  /-- Whether the operand has come. -/
  hasOperand : Bool := false
  /-- Whether everything that follows is an operand. -/
  onlyOperands : Bool := false
  deriving DecidableEq, Repr

namespace Reading

/-- Judges the value that is still pending. -/
def settle (reading : Reading) : Except Stop Reading :=
  match reading.pending? with
  | none => .ok reading
  | some ⟨argument, none⟩ => .error (.refused (.missingValue argument))
  | some ⟨argument, some value⟩ =>
    (reading.options.take argument value).map fun options =>
      { reading with options := options, pending? := none }

/-- Takes an argument together with its value. -/
def takeValue (reading : Reading) (argument : Argument) (value : String) :
    Except Stop Reading := do
  let reading ← reading.settle
  return { reading with options := ← reading.options.take argument value }

/-- Takes an option that has no value. -/
def takeFlag (reading : Reading) (argument : Argument) (isLong : Bool) : Except Stop Reading := do
  let reading ← reading.settle
  match argument with
  | .help => throw (.help isLong)
  | .version => throw .version
  | _ =>
    if reading.options.verbose then throw (.refused (.repeated argument))
    else return { reading with options := { reading.options with verbose := true } }

/-- Takes an option whose value has to come with the next argument. -/
def await (reading : Reading) (argument : Argument) : Except Stop Reading := do
  let reading ← reading.settle
  return { reading with pending? := some ⟨argument, none⟩ }

/-- Takes an operand. -/
def takeOperand (reading : Reading) (value : String) : Except Stop Reading := do
  if reading.hasOperand then throw (.refused (.unexpected value))
  else
    let reading ← reading.settle
    return { reading with pending? := some ⟨.root, some value⟩, hasOperand := true }

/-- Takes a long option, given behind its two dashes. -/
def takeLong (reading : Reading) (text : List Char) : Except Stop Reading :=
  let name := text.takeWhile (· ≠ '=')
  let value? := match text.drop name.length with
    | _ :: value => some (String.ofList value)
    | [] => none
  match Argument.ofLong? (String.ofList name), value? with
  | none, _ => .error (.refused (.unexpected ("--" ++ String.ofList name)))
  | some argument, some value =>
    if argument.takesValue then reading.takeValue argument value
    else .error (.refused (.unneededValue value argument))
  | some argument, none =>
    if argument.takesValue then reading.await argument else reading.takeFlag argument true

/-- Takes short options, given behind their dash. -/
def takeShort (reading : Reading) : List Char → Except Stop Reading
  | [] => .ok reading
  | name :: rest =>
    match Argument.ofShort? name with
    | none => .error (.refused (.unexpected (String.ofList ['-', name])))
    | some argument =>
      if argument.takesValue then
        match rest with
        | [] => reading.await argument
        | '=' :: value => reading.takeValue argument (String.ofList value)
        | value => reading.takeValue argument (String.ofList value)
      else
        match reading.takeFlag argument false with
        | .ok reading => reading.takeShort rest
        | .error stop => .error stop

/-- Takes a value for the argument that waits for one, or an operand. -/
def takeWord (reading : Reading) (word : String) : Except Stop Reading :=
  match reading.pending? with
  | some ⟨argument, none⟩ => .ok { reading with pending? := some ⟨argument, some word⟩ }
  | _ => reading.takeOperand word

/-- Takes one more argument. -/
def step (reading : Reading) (word : String) : Except Stop Reading :=
  if reading.onlyOperands then reading.takeOperand word
  else
    match word.toList with
    | ['-', '-'] => .ok { reading with onlyOperands := true }
    | '-' :: '-' :: text => reading.takeLong text
    | '-' :: name :: text => reading.takeShort (name :: text)
    | _ => reading.takeWord word

end Reading

/-- Reads the arguments of the command. -/
def parse (arguments : List String) : Except Stop Options := do
  let reading ← arguments.foldlM Reading.step {}
  return (← reading.settle).options

/-! ## Answers that need no run -/

/-- What `--version` prints. -/
def versionText : String :=
  "groovyls-reconcile 0.1.0\n"

/-- Lines of text, each with its line end. -/
def ofLines (lines : List String) : String :=
  String.join (lines.map fun line => line ++ "\n")

/-- A run of blanks. -/
def blanks (n : Nat) : String :=
  String.ofList (List.replicate n ' ')

/-- An option as help lists it: the short name, or blanks in its place, and the long one. -/
def Argument.listed (argument : Argument) : String :=
  match argument.shortName? with
  | some name => String.ofList ['-', name, ',', ' '] ++ argument.shown
  | none => blanks 4 ++ argument.shown

/-- What both forms of help begin with. -/
def helpIntroduction : List String :=
  ["Command-line tools for inspecting Groovy language server compiler sessions", "",
    "Usage: groovyls-reconcile [OPTIONS] [ROOT]", "", "Arguments:"]

/-- What full help says of an argument behind its description. -/
def Argument.details : Argument → List String
  | .format =>
    ["", blanks 10 ++ "Possible values:",
      blanks 10 ++ "- text: Human-readable text output (default)",
      blanks 10 ++ "- json: JSON output for tooling integration", blanks 10,
      blanks 10 ++ "[default: text]"]
  | _ => []

/-- An argument in full help; `listed` is its name. -/
def fullEntry (argument : Argument) (listed : String) : List String :=
  let hint := if argument = .help then " (see a summary with '-h')" else ""
  ["  " ++ listed, blanks 10 ++ argument.description ++ hint] ++ argument.details

/-- What `--help` prints. -/
def fullHelp : String :=
  let entries := Argument.options.map fun argument => "" :: fullEntry argument argument.listed
  ofLines (helpIntroduction ++ fullEntry .root Argument.root.shown ++ ["", "Options:"]
    ++ entries.flatten.drop 1)

/-- What short help says of an argument behind its description. -/
def Argument.hint : Argument → String
  | .format => " [default: text] [possible values: text, json]"
  | .help => " (see more with '--help')"
  | _ => ""

/-- What `-h` prints. -/
def shortHelp : String :=
  let width := (Argument.options.map fun argument => argument.listed.length).foldl max 0
  let entry (argument : Argument) : String :=
    "  " ++ argument.listed ++ blanks (width - argument.listed.length + 2)
      ++ argument.description ++ argument.hint
  ofLines (helpIntroduction
    ++ ["  " ++ Argument.root.shown ++ "  " ++ Argument.root.description, "", "Options:"]
    ++ Argument.options.map entry)

end WorkspaceSession.CommandLine
