/-
The classpath of a session.

A classpath is a list of library archives, searched front to back. It is built from settings: the
archives of the library directory first, then what each entry contributes, in order and with
repetitions. An entry that ends in `*` names a directory and contributes the archives directly in
it, by name; any other entry contributes itself if it is an archive. Entries that name neither
contribute nothing and are no error. An archive is a regular file, possibly behind a link, with
exactly the archive extension.
-/
import WorkspaceSession.Disk

set_option autoImplicit false

namespace WorkspaceSession

/-- The extension of library archives. -/
def archiveExtension : String := "jar"

/-- The character at the end of an entry that names a directory. -/
def wildcard : Char := '*'

/-- Library archives in the order in which they are searched. -/
structure Classpath where
  /-- The archives, repetitions included. -/
  archives : List Path
  deriving DecidableEq, Repr

namespace Classpath

/-- A classpath without archives. -/
def empty : Classpath :=
  ⟨[]⟩

/-- The classpath with one more archive at its end. -/
def push (classpath : Classpath) (archive : Path) : Classpath :=
  ⟨classpath.archives ++ [archive]⟩

/-- The number of archives, repetitions included. -/
def size (classpath : Classpath) : Nat :=
  classpath.archives.length

/-- Whether there is no archive. -/
def isEmpty (classpath : Classpath) : Bool :=
  classpath.archives.isEmpty

/-- Whether an archive is on the classpath, in any spelling. -/
def contains (classpath : Classpath) (archive : Path) : Bool :=
  classpath.archives.any fun a => a.same archive

/-- The first archive with a file name. -/
def find? (classpath : Classpath) (name : String) : Option Path :=
  classpath.archives.find? fun archive => archive.fileName? = some (Bytes.ofString name)

/-! ## Resolving -/

variable {m : Type → Type} [Monad m]

/-- Whether a path leads to an archive. -/
def leadsToArchive (disk : Disk m) (path : Path) : m Bool := do
  if path.hasExtension archiveExtension then disk.isFile path else return false

/-- The paths among these that lead to archives, in the same order. -/
def archivesAmong (disk : Disk m) : List Path → m (List Path)
  | [] => return []
  | path :: rest => do
    let keep ← leadsToArchive disk path
    let kept ← archivesAmong disk rest
    return if keep then path :: kept else kept

/-- The archives directly inside a directory, by name. A directory that cannot be read has none. -/
def archivesOfDirectory (disk : Disk m) (directory : Path) : m (List Path) := do
  if ← disk.isDirectory directory then
    match ← disk.entries directory with
    | .error _ => return []
    | .ok entries =>
      let names := (entries.map DirEntry.name).mergeSort fun a b => decide (a ≤ b)
      archivesAmong disk (names.map fun name => directory.join ⟨name⟩)
  else return []

/-- The archives that one entry contributes. -/
def archivesOfEntry (disk : Disk m) (entry : String) : m (List Path) := do
  match entry.toList.getLast? with
  | some c =>
    if c = wildcard then
      archivesOfDirectory disk (Path.ofString (String.ofList entry.toList.dropLast))
    else archivesAmong disk [Path.ofString entry]
  | none => return []

/-- The archives that entries contribute one after the other. -/
def archivesOfEntries (disk : Disk m) : List String → m (List Path)
  | [] => return []
  | entry :: rest => do
    let first ← archivesOfEntry disk entry
    let others ← archivesOfEntries disk rest
    return first ++ others

/-- The classpath for entries and a library directory. -/
def resolve (disk : Disk m) (entries : List String) (libraryDirectory? : Option Path) :
    m Classpath := do
  let library ←
    match libraryDirectory? with
    | some directory => archivesOfDirectory disk directory
    | none => pure []
  let configured ← archivesOfEntries disk entries
  return ⟨library ++ configured⟩

end Classpath

end WorkspaceSession
