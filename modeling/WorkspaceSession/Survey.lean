/-
What a session should contain.

A survey looks at the files of the workspace and at the open documents, and gives for each document
that it is about a source, or the reason why there is none. It does not look at the session, so what
it finds depends on the present state of the disk and the editor alone.

The walk through the files visits every directory before its entries, follows no link but one at the
root, and goes on after a directory that cannot be read. A file holds a source if its name has the
source extension and it is a regular file or a link to one. A file that is open is left to the
second part, which takes every open document that lies under the root, or every one if there is no
root. Documents that the survey is not about are passed over before anything is read.
-/
import WorkspaceSession.Editor
import WorkspaceSession.Location
import WorkspaceSession.Path.Normal
import WorkspaceSession.Session

set_option autoImplicit false

namespace WorkspaceSession

/-- Why a source is missing from a session. -/
inductive SurveyError where
  /-- A directory of the workspace could not be read. -/
  | walk (root path : Path) (cause : OsError)
  /-- A file could not be read. -/
  | read (path : Path) (cause : OsError)
  /-- An open document has no location. -/
  | location (unknown : Location.Unknown)
  deriving DecidableEq, Repr

/-- The wording of a missing source. -/
def SurveyError.message : SurveyError → String
  | .walk root path cause =>
    "failed to walk directory for source files under " ++ root.display
      ++ ": IO error for operation on " ++ path.display ++ ": " ++ cause.message
  | .read path cause => "failed to read source file " ++ path.display ++ ": " ++ cause.message
  | .location unknown => unknown.message

namespace Survey

variable {m : Type → Type} [Monad m]

/-- What a survey finds at one place: a source, or why there is none. -/
abbrev Finding := Except SurveyError Source

/-- The sources among findings. -/
def sources (findings : List Finding) : List Source :=
  findings.filterMap Except.toOption

/-- The errors among findings. -/
def errors (findings : List Finding) : List SurveyError :=
  findings.filterMap fun
    | .error e => some e
    | .ok _ => none

/-- Which documents a survey is about: all of them, or those that changed. -/
def isAbout (changed? : Option (List Url)) (url : Url) : Bool :=
  match changed? with
  | none => true
  | some changed => changed.contains url

/-! ## Files -/

/-- The deepest nesting of directories that a walk enters. A path grows by two bytes with every
directory and cannot be followed beyond 4095 bytes, so no walk comes this deep. -/
def maxDepth : Nat := 4096

/-- Visits what lies at a path and, if that is a directory, everything below it. -/
def walk {β : Type} (disk : Disk m) (visit : Path → NodeKind → m (List β))
    (refused : Path → OsError → β) : Nat → Path → NodeKind → m (List β)
  | 0, _, _ => return []
  | depth + 1, path, kind => do
    let here ← visit path kind
    if kind = .directory then
      match ← disk.entries path with
      | .error e => return here ++ [refused path e]
      | .ok entries =>
        let below ← entries.mapM fun entry =>
          walk disk visit refused depth (path.join ⟨entry.name⟩) entry.kind
        return here ++ below.flatten
    else return here

/-- Whether a place of the workspace holds a source file. -/
def isSourceFile (disk : Disk m) (path : Path) (kind : NodeKind) : m Bool :=
  if path.hasExtension sourceExtension then
    match kind with
    | .file => return true
    | .link => disk.isFile path
    | _ => return false
  else return false

/-- What a survey finds in the source file of a document. -/
def readSource (disk : Disk m) (editor : Editor m) (changed? : Option (List Url)) (loader : Loader)
    (path : Path) (url : Url) : m (List Finding) := do
  -- The editor is asked first, whatever the survey is about.
  if ← editor.isOpen url then return []
  else if isAbout changed? url then
    match ← disk.read path with
    | .ok bytes => return [.ok (.ofDisk url path bytes loader)]
    | .error e => return [.error (.read path e)]
  else return []

/-- What a survey finds at a place of the workspace. -/
def findFile (disk : Disk m) (editor : Editor m) (changed? : Option (List Url)) (loader : Loader)
    (path : Path) (kind : NodeKind) : m (List Finding) := do
  if ← isSourceFile disk path kind then
    match Url.ofFilePath? path with
    | some url => readSource disk editor changed? loader path url
    | none => return []
  else return []

/-- What a survey finds at the root of the workspace and below it; nothing if the root leads
nowhere. -/
def files (disk : Disk m) (editor : Editor m) (changed? : Option (List Url)) (loader : Loader)
    (root : Path) : m (List Finding) := do
  match ← disk.kind? root with
  | none => return []
  | some _ =>
    let visit := findFile disk editor changed? loader
    let refused (path : Path) (e : OsError) : Finding := .error (.walk root path e)
    match ← disk.ownKind root with
    | .error e => return [refused root e]
    | .ok .link =>
      -- Only here a link to a directory is entered.
      if ← disk.isDirectory root then walk disk visit refused maxDepth root .directory
      else visit root .link
    | .ok kind => walk disk visit refused maxDepth root kind

/-! ## Open documents -/

/-- What a survey finds in an open document. -/
def findDocument (editor : Editor m) (changed? : Option (List Url)) (root? : Option Path)
    (loader : Loader) (url : Url) : m (List Finding) := do
  if isAbout changed? url then
    match Location.ofUrl url with
    | .error unknown => return [.error (.location unknown)]
    | .ok location =>
      if root?.all location.liesIn then
        match ← editor.text? url with
        | none => return []
        | some content => return [.ok (.ofBuffer url location content loader)]
      else return []
  else return []

/-- What a survey finds in the open documents. -/
def documents (editor : Editor m) (changed? : Option (List Url)) (root? : Option Path)
    (loader : Loader) : m (List Finding) := do
  let urls ← editor.openUrls
  let found ← urls.mapM (findDocument editor changed? root? loader)
  return found.flatten

/-! ## The whole survey -/

/-- What a survey finds in the workspace; nothing if there is no root. -/
def inWorkspace (disk : Disk m) (editor : Editor m) (changed? : Option (List Url)) (loader : Loader)
    (root? : Option Path) : m (List Finding) :=
  match root? with
  | some root => files disk editor changed? loader root
  | none => return []

/-- What a survey finds: first in the files, if there is a root, then in the open documents. -/
def run (disk : Disk m) (editor : Editor m) (changed? : Option (List Url)) (root? : Option Path)
    (loader : Loader) : m (List Finding) := do
  let inFiles ← inWorkspace disk editor changed? loader root?
  let inDocuments ← documents editor changed? root? loader
  return inFiles ++ inDocuments

end Survey

end WorkspaceSession
