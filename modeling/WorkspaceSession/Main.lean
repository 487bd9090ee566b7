/-
The command on the real disk.

Nothing is decided here: the questions of the library become system calls, their refusals become
system errors, and the outcome of a run becomes output and an exit code. The system's error numbers
arrive with either sign, which is why they are folded before they are told apart.
-/
import WorkspaceSession.CommandLine.Run

set_option autoImplicit false

namespace WorkspaceSession.CommandLine

/-! ## Refusals -/

/-- The system's number and words for an error, where it has any. -/
def systemCode? : IO.Error → Option (UInt32 × String)
  | .alreadyExists _ code details | .invalidArgument _ code details
  | .permissionDenied _ code details | .resourceExhausted _ code details
  | .inappropriateType _ code details | .noSuchThing _ code details
  | .noFileOrDirectory _ code details | .interrupted _ code details
  | .otherError code details | .resourceBusy code details | .resourceVanished code details
  | .unsupportedOperation code details | .hardwareFault code details
  | .unsatisfiedConstraints code details | .illegalOperation code details
  | .protocolError code details | .timeExpired code details => some (code, details)
  | .unexpectedEof | .userError _ => none

/-- A system error as the library names it. -/
def systemError (e : IO.Error) : OsError :=
  match systemCode? e with
  | none => .other (toString e)
  | some (code, details) =>
    match (if code < 0x80000000 then code else 0 - code) with
    | 2 => .notFound
    | 20 => .notDirectory
    | 21 => .isDirectory
    | 36 => .nameTooLong
    | 40 => .tooManyLinks
    | number => .other (details ++ " (os error " ++ toString number ++ ")")

/-- Asks the system about a path. A path with a NUL byte names nothing, so it is not asked for. -/
def ask {α : Type} (path : Path) (question : IO.FS.DirEntry → IO α) : IO (Except OsError α) := do
  if path.bytes.contains 0 then return .error .nulInName
  else return (← (question ⟨path.display, ""⟩).toBaseIO).mapError systemError

/-! ## The real disk -/

/-- What the system says of a file's type. -/
def nodeKind : IO.FS.FileType → NodeKind
  | .dir => .directory
  | .file => .file
  | .symlink => .link
  | .other => .other

/-- An entry of a directory with what it is, which is something else if it has just gone. -/
def dirEntry (entry : IO.FS.DirEntry) : IO DirEntry := do
  let kind ←
    match ← entry.path.symlinkMetadata.toBaseIO with
    | .ok found => pure (nodeKind found.type)
    | .error _ => pure .other
  return ⟨Bytes.ofString entry.fileName, kind⟩

/-- The disk of the system. -/
def systemDisk : Disk IO where
  workingDirectory := do
    return ((← IO.currentDir.toBaseIO).mapError systemError).map
      fun found => Path.ofString found.toString
  kind? path := do
    return (← ask path fun named => return nodeKind (← named.root.metadata).type).toOption
  ownKind path := ask path fun named => return nodeKind (← named.root.symlinkMetadata).type
  entries path := ask path fun named => do
    return (← (← named.root.readDir).mapM dirEntry).toList
  read path := ask path fun named => return (← IO.FS.readBinFile named.root).toList

end WorkspaceSession.CommandLine

/-- Runs the command and ends with its code. -/
def main (arguments : List String) : IO UInt32 := do
  let environment? ← IO.getEnv WorkspaceSession.Settings.libraryVariable
  let outcome ←
    WorkspaceSession.CommandLine.run WorkspaceSession.CommandLine.systemDisk environment? arguments
  IO.print outcome.output
  IO.eprint outcome.complaint
  return outcome.code.toUInt32
