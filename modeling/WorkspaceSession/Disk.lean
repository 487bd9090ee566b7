/-
What the library asks of a disk.

Everything that reads files is written over this interface and over a monad of the caller's choice,
because the disk belongs to others: between two questions any answer may change. Over a state monad
the answers are functions of a state that every question may move, and so the laws about
reconciling hold for every disk and every change in the middle of a walk; `FileSystem` gives one
disk as a value, and the command line gives the real one.
-/
import WorkspaceSession.Path.Basic

set_option autoImplicit false

namespace WorkspaceSession

/-- Why the system refused a question about a path. -/
inductive OsError where
  /-- Nothing has this name. -/
  | notFound
  /-- A file stands where a directory has to be. -/
  | notDirectory
  /-- A directory stands where a file has to be. -/
  | isDirectory
  /-- Following links does not come to an end. -/
  | tooManyLinks
  /-- The path or one of its names is too long. -/
  | nameTooLong
  /-- The path contains a NUL byte. -/
  | nulInName
  /-- Any other reason, in the system's words. -/
  | other (text : String)
  deriving DecidableEq, Repr

/-- The wording of a system error. -/
def OsError.message : OsError → String
  | .notFound => "No such file or directory (os error 2)"
  | .notDirectory => "Not a directory (os error 20)"
  | .isDirectory => "Is a directory (os error 21)"
  | .nameTooLong => "File name too long (os error 36)"
  | .tooManyLinks => "Too many levels of symbolic links (os error 40)"
  | .nulInName => "file name contained an unexpected NUL byte"
  | .other text => text

/-- What stands at a place of the file system. -/
inductive NodeKind where
  /-- A directory. -/
  | directory
  /-- A regular file. -/
  | file
  /-- A symbolic link. -/
  | link
  /-- Anything else. -/
  | other
  deriving DecidableEq, Repr

/-- An entry of a directory. -/
structure DirEntry where
  /-- The name of the entry. -/
  name : Bytes
  /-- What the entry is; links are not followed. -/
  kind : NodeKind
  deriving DecidableEq, Repr

/-- A disk that can be asked about paths. -/
structure Disk (m : Type → Type) where
  /-- The directory from which relative paths are read. -/
  workingDirectory : m (Except OsError Path)
  /-- What a path leads to, links followed; nothing if it leads nowhere. -/
  kind? : Path → m (Option NodeKind)
  /-- What a path names, a link at its end not followed. -/
  ownKind : Path → m (Except OsError NodeKind)
  /-- The entries of a directory, in no particular order. -/
  entries : Path → m (Except OsError (List DirEntry))
  /-- The content of a file. -/
  read : Path → m (Except OsError Bytes)

namespace Disk

variable {m : Type → Type} [Monad m]

/-- Whether a path leads to a directory. -/
def isDirectory (disk : Disk m) (path : Path) : m Bool :=
  return (← disk.kind? path) = some .directory

/-- Whether a path leads to a regular file. -/
def isFile (disk : Disk m) (path : Path) : m Bool :=
  return (← disk.kind? path) = some .file

/-- A path read from the working directory. An absolute path stays as it is. -/
def absolute (disk : Disk m) (path : Path) : m (Except OsError Path) := do
  if path.isAbsolute then return .ok path
  else return (← disk.workingDirectory).map fun base => base.join path

end Disk

end WorkspaceSession
