/-
Settings.

The settings decide the classpath and nothing else: configured entries, and a directory whose
archives come before them. Two settings are the same if the entries are equal as texts and the
directories are the same path, in whatever spelling.

A client sends the section for this tool inside a larger payload, as JSON. Where a section is
expected, an object or a sequence will do: the members of an object that nobody asks for are
ignored, and the items of a sequence are the members in a fixed order, of which the last ones may
be missing. `null` stands for an optional value that is not there. A payload is refused as a whole
at the first value of the wrong type.
-/
import WorkspaceSession.Json.Basic
import WorkspaceSession.Path.Basic

set_option autoImplicit false

namespace WorkspaceSession

/-- What decides the classpath of a session. -/
structure Settings where
  /-- Archives, and directories followed by the wildcard. -/
  classpath : List String
  /-- The directory whose archives come first. -/
  libraryDirectory? : Option Path
  deriving DecidableEq, Repr

namespace Settings

/-- The environment variable that names the library directory. -/
def libraryVariable : String := "GROOVYLS_LIB_PATH"

/-- Settings that give an empty classpath. -/
def empty : Settings :=
  ⟨[], none⟩

/-- The settings given by the value of the environment variable; an empty value counts as none. -/
def ofEnvironment (value? : Option String) : Settings :=
  ⟨[], (value?.filter (· ≠ "")).map Path.ofString⟩

/-- Whether two optional directories are the same, in whatever spelling. -/
def sameDirectory : Option Path → Option Path → Bool
  | none, none => true
  | some p, some q => p.same q
  | _, _ => false

/-- Whether two settings are the same. -/
def same (s t : Settings) : Bool :=
  s.classpath = t.classpath && sameDirectory s.libraryDirectory? t.libraryDirectory?

/-! ## Reading JSON -/

/-- Why a JSON value is not what is expected. -/
inductive PayloadError where
  /-- A value has another type than the expected one. -/
  | invalidType (found : Json) (expected : String)
  /-- A sequence has more items than a section has members. -/
  | tooManyItems (count : Nat)
  deriving Repr

/-- The wording of an unexpected value. -/
def PayloadError.message : PayloadError → String
  | .invalidType found expected =>
    "invalid type: " ++ found.describe ++ ", expected " ++ expected
  | .tooManyItems count =>
    "invalid length " ++ toString count ++ ", expected fewer elements in array"

/-- Reads a text. -/
def readText (expected : String) : Json → Except PayloadError String
  | .string s => .ok s
  | value => .error (.invalidType value expected)

/-- Reads a sequence of texts. -/
def readTexts : Json → Except PayloadError (List String)
  | .array items => items.mapM (readText "a string")
  | value => .error (.invalidType value "a sequence")

/-- Reads a value that may be `null`. -/
def readOptional {α : Type} (read : Json → Except PayloadError α) :
    Json → Except PayloadError (Option α)
  | .null => .ok none
  | value => (read value).map some

/-- The members of a section in the fixed order of their names: those of an object by name, those
of a sequence by place. Missing ones are `none`, and the number of items of a sequence is kept. -/
def readMembers (expected : String) (names : List String) :
    Json → Except PayloadError (List (Option Json) × Nat)
  | .object members =>
    .ok (names.map fun name => (Json.object members).member? name, 0)
  | .array items => .ok ((List.range names.length).map fun i => items[i]?, items.length)
  | value => .error (.invalidType value expected)

/-- Reads a section with one member, which takes a default if it is missing. -/
def readSection {α : Type} (expected name : String) (default : α)
    (read : Json → Except PayloadError α) (value : Json) : Except PayloadError α := do
  let (members, count) ← readMembers expected [name] value
  let result ←
    match members with
    | some member :: _ => read member
    | _ => pure default
  if 1 < count then throw (.tooManyItems count) else return result

/-- The classpath that a client's payload gives, if it gives one. -/
def readPayload (payload : Json) : Except PayloadError (Option (List String)) :=
  (readSection "struct ClientSettings" "groovy" none
    (readOptional (readSection "struct GroovySection" "classpath" none (readOptional readTexts)))
    payload).map Option.join

/-- Reads whole settings; missing members are empty. -/
def ofJson (value : Json) : Except PayloadError Settings := do
  let (members, count) ← readMembers "struct Settings" ["classpath", "libraryDir"] value
  let classpath ←
    match members with
    | some member :: _ => readTexts member
    | _ => pure []
  let directory? ←
    match members with
    | [_, some member] => readOptional (readText "path string") member
    | _ => pure none
  if 2 < count then throw (.tooManyItems count)
  else return ⟨classpath, directory?.map Path.ofString⟩

/-- Settings as JSON. -/
def toJson (settings : Settings) : Json :=
  .object [
    ("classpath", .array (settings.classpath.map .string)),
    ("libraryDir",
      match settings.libraryDirectory? with
      | some directory => .string directory.display
      | none => .null)]

/-- The wording of a refused payload. -/
def refusal (e : PayloadError) : String :=
  "invalid settings: " ++ e.message

/-- The settings after a client's payload, and whether the classpath changed. -/
def apply (settings : Settings) (payload : Json) : Except PayloadError (Settings × Bool) :=
  (readPayload payload).map fun
    | none => (settings, false)
    | some classpath =>
      if classpath = settings.classpath then (settings, false)
      else ({ settings with classpath := classpath }, true)

end Settings

end WorkspaceSession
