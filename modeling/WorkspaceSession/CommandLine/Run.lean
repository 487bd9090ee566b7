/-
One run of the command.

A run reads the settings, opens the files and virtual documents that it is told to treat as open,
reconciles once from nothing and reports. Settings come from the environment, then from the settings
file, then from the options; an option replaces what came before it. The run ends with 0 if every
source was found, with 1 if some are missing, and with 2 if it could not begin.
-/
import WorkspaceSession.Buffers
import WorkspaceSession.CommandLine.Report
import WorkspaceSession.Json.Parser

set_option autoImplicit false

namespace WorkspaceSession.CommandLine

/-! ## Failures -/

/-- Why a file could not be read as text. -/
inductive ReadError where
  /-- The system refused. -/
  | system (cause : OsError)
  /-- The content is not UTF-8. -/
  | notText
  deriving DecidableEq, Repr

/-- The wording of a read error. -/
def ReadError.message : ReadError → String
  | .system cause => cause.message
  | .notText => "stream did not contain valid UTF-8"

/-- Why a run could not begin. -/
inductive RunError where
  /-- The settings file could not be read. -/
  | settingsUnreadable (file : Path) (cause : ReadError)
  /-- The settings file is no JSON. -/
  | settingsNotJson (file : Path) (cause : Json.SyntaxError)
  /-- The settings in the file are refused. -/
  | settingsRefused (file : Path) (cause : Settings.PayloadError)
  /-- There is no working directory. -/
  | noWorkingDirectory (cause : OsError)
  /-- A file to be opened could not be read. -/
  | fileUnreadable (file : Path) (cause : ReadError)
  /-- A file to be opened has no URL. -/
  | fileWithoutUrl (file : Path)
  /-- A virtual document is given without a text. -/
  | documentWithoutText (given : String)
  /-- A virtual document has no URL. -/
  | documentWithoutUrl (name : String) (base : Path)
  /-- The name of a virtual document gives no URL. -/
  | documentMisnamed (name : String) (cause : Url.ParseError)
  deriving Repr

/-- The wording of a run error; what led to it follows after a colon. -/
def RunError.message : RunError → String
  | .settingsUnreadable file cause =>
    "failed to read settings file " ++ file.display ++ ": " ++ cause.message
  | .settingsNotJson file cause =>
    "settings file " ++ file.display ++ " is not JSON: " ++ cause.message
  | .settingsRefused file cause =>
    "invalid settings in " ++ file.display ++ ": " ++ Settings.refusal cause ++ ": "
      ++ cause.message
  | .noWorkingDirectory cause => "failed to determine current directory: " ++ cause.message
  | .fileUnreadable file cause => "failed to read " ++ file.display ++ ": " ++ cause.message
  | .fileWithoutUrl file => "cannot build a URI for " ++ file.display
  | .documentWithoutText given => "expected NAME=TEXT, got " ++ Text.Quoted.encode given
  | .documentWithoutUrl name base =>
    "cannot build a URI for " ++ Text.Quoted.encode name ++ " under " ++ base.display
  | .documentMisnamed name cause =>
    "invalid virtual document name " ++ Text.Quoted.encode name ++ ": " ++ cause.message

/-! ## Virtual documents -/

/-- The URL of a virtual document named inside a directory. -/
def urlOfVirtual (base : Path) (name : String) : Except RunError Url :=
  match Url.ofFilePath? (base.join (Path.ofString name)) with
  | none => .error (.documentWithoutUrl name base)
  | some url =>
    let rest := url.text.toList.drop fileScheme.toList.length
    (Url.parse (String.ofList (virtualScheme.toList ++ rest))).mapError (.documentMisnamed name)

/-- The name and the text of a virtual document, around the first equals sign. -/
def splitDocument (given : String) : Except RunError (String × String) :=
  let name := given.toList.takeWhile (· ≠ '=')
  match given.toList.drop name.length with
  | _ :: text => .ok (String.ofList name, String.ofList text)
  | [] => .error (.documentWithoutText given)

/-- Opens virtual documents named inside a directory. -/
def openVirtualDocuments (base : Path) (buffers : Buffers) :
    List String → Except RunError Buffers
  | [] => .ok buffers
  | given :: rest => do
    let (name, text) ← splitDocument given
    let url ← urlOfVirtual base name
    openVirtualDocuments base (buffers.openDocument url text 1) rest

/-! ## The steps of a run -/

variable {m : Type → Type} [Monad m]

/-- Reads a file as text. -/
def readText (disk : Disk m) (path : Path) : m (Except ReadError String) := do
  match ← disk.read path with
  | .error cause => return .error (.system cause)
  | .ok bytes =>
    match Text.Utf8.decode? bytes with
    | none => return .error .notText
    | some cs => return .ok (String.ofList cs)

/-- The settings after those of a file. -/
def settingsOfFile (disk : Disk m) (settings : Settings) (file : Path) :
    m (Except RunError Settings) := do
  match ← readText disk file with
  | .error cause => return .error (.settingsUnreadable file cause)
  | .ok text =>
    match Json.parse text with
    | .error cause => return .error (.settingsNotJson file cause)
    | .ok payload =>
      match settings.apply payload with
      | .error cause => return .error (.settingsRefused file cause)
      | .ok (settings, _) => return .ok settings

/-- Settings with what the options replace. -/
def overrideSettings (options : Options) (settings : Settings) : Settings where
  classpath := if options.classpath = [] then settings.classpath else options.classpath
  libraryDirectory? := options.libraryDirectory?.or settings.libraryDirectory?

/-- The settings of a run, given the value of the environment variable. -/
def settingsOfRun (disk : Disk m) (environment? : Option String) (options : Options) :
    m (Except RunError Settings) := do
  let settings := Settings.ofEnvironment environment?
  let read ←
    match options.settingsFile? with
    | some file => settingsOfFile disk settings file
    | none => pure (.ok settings)
  return read.map (overrideSettings options)

/-- A path as an absolute one. -/
def absolute (disk : Disk m) (path : Path) : m (Except RunError Path) :=
  return (← disk.absolute path).mapError .noWorkingDirectory

/-- The root of the workspace as an absolute path, if there is one. -/
def rootOfRun (disk : Disk m) (root? : Option Path) : m (Except RunError (Option Path)) := do
  match root? with
  | none => return .ok none
  | some root => return (← absolute disk root).map some

/-- Opens files with their content. -/
def openFiles (disk : Disk m) (buffers : Buffers) :
    List Path → m (Except RunError Buffers)
  | [] => return .ok buffers
  | file :: rest => do
    match ← absolute disk file with
    | .error e => return .error e
    | .ok path =>
      match ← readText disk path with
      | .error cause => return .error (.fileUnreadable path cause)
      | .ok text =>
        match Url.ofFilePath? path with
        | none => return .error (.fileWithoutUrl path)
        | some url => openFiles disk (buffers.openDocument url text 1) rest

/-- The directory in which virtual documents are named: the root, or the working directory. -/
def baseDirectory (disk : Disk m) (root? : Option Path) : m (Except RunError Path) := do
  match root? with
  | some root => return .ok root
  | none => return (← disk.workingDirectory).mapError .noWorkingDirectory

/-- The buffers of a run: the files and then the virtual documents. -/
def buffersOfRun (disk : Disk m) (options : Options) (root? : Option Path) :
    m (Except RunError Buffers) := do
  match ← openFiles disk .empty options.openFiles with
  | .error e => return .error e
  | .ok buffers =>
    match ← baseDirectory disk root? with
    | .error e => return .error e
    | .ok base => return openVirtualDocuments base buffers options.virtualDocuments

/-- Carries a run out up to its report. -/
def perform (disk : Disk m) (environment? : Option String) (options : Options) :
    m (Except RunError Report) := do
  match ← settingsOfRun disk environment? options with
  | .error e => return .error e
  | .ok settings =>
    match ← rootOfRun disk options.root? with
    | .error e => return .error e
    | .ok root? =>
      match ← buffersOfRun disk options root? with
      | .error e => return .error e
      | .ok buffers =>
        let (workspace, summary) ←
          (Workspace.ofSettings settings).reconcile disk buffers.atRest root?
        let session := workspace.session?.getD (.empty (.ofClasspath .empty))
        return .ok (.of session summary)

/-! ## The command -/

/-- What the command leaves behind. -/
structure Outcome where
  /-- The exit code. -/
  code : Nat
  /-- What was written to the standard output. -/
  output : String
  /-- What was written to the standard error output, the log aside. -/
  complaint : String
  deriving DecidableEq, Repr

namespace Outcome

/-- The outcome of a run that could not begin. -/
def failure (message : String) : Outcome :=
  ⟨2, "", "error: " ++ message ++ "\n"⟩

/-- The outcome of arguments that ask for no run. -/
def ofStop : Stop → Outcome
  | .help full => ⟨0, if full then fullHelp else shortHelp, ""⟩
  | .version => ⟨0, versionText, ""⟩
  | .refused e => failure e.message

/-- The outcome of a run. -/
def ofReport (format : ReportFormat) (report : Report) : Outcome :=
  ⟨if report.errors = [] then 0 else 1, report.render format, ""⟩

end Outcome

/-- The command: its outcome for the value of the environment variable and the arguments. -/
def run (disk : Disk m) (environment? : Option String) (arguments : List String) : m Outcome := do
  match parse arguments with
  | .error stop => return .ofStop stop
  | .ok options =>
    match ← perform disk environment? options with
    | .error e => return .failure e.message
    | .ok report => return .ofReport (options.format?.getD .text) report

end WorkspaceSession.CommandLine
