/-
Keeping a session in line with the workspace.

A workspace owns the settings and at most one session. Asked to reconcile, it makes a session if it
has none, which is a full build: everything that a survey finds goes in. Otherwise it first removes
the sources of all changed documents and then adds what a survey of just these documents finds, so
that a changed document ends with one fresh source or with none. All removals come before the first
addition, and so no addition of a reconciliation replaces anything that the session still holds. The
editor's changes are taken each time, full build or not.

Settings that are not the same as before, and an explicit call, discard the session together with
its classpath; the next reconciliation is a full build.
-/
import WorkspaceSession.Settings
import WorkspaceSession.Survey

set_option autoImplicit false

namespace WorkspaceSession

/-! ## The life of a session -/

/-- The life of a session. -/
inductive Lifecycle where
  /-- There has been no session yet. -/
  | fresh
  /-- There is a session. -/
  | active (session : Session)
  /-- The last session has been discarded. -/
  | discarded
  deriving DecidableEq, Repr

namespace Lifecycle

/-- The name of a stage of life. -/
def name : Lifecycle → String
  | .fresh => "uninitialized"
  | .active _ => "active"
  | .discarded => "invalidated"

/-- The session, if there is one. -/
def session? : Lifecycle → Option Session
  | .active session => some session
  | _ => none

/-- Discards the session; without one nothing happens. -/
def discard : Lifecycle → Lifecycle
  | .active _ => .discarded
  | stage => stage

end Lifecycle

/-- What one reconciliation did. -/
structure Summary where
  /-- Whether the session was made from nothing. -/
  fullBuild : Bool
  /-- The number of sources removed because their documents changed. -/
  removed : Nat
  /-- The number of sources added. -/
  added : Nat
  /-- Why sources are missing. -/
  errors : List SurveyError
  deriving DecidableEq, Repr

/-- The settings and the session made from them. -/
structure Workspace where
  /-- The settings. -/
  settings : Settings
  /-- Where the session is in its life. -/
  stage : Lifecycle
  deriving DecidableEq, Repr

namespace Workspace

/-- A workspace without a session. -/
def ofSettings (settings : Settings) : Workspace :=
  ⟨settings, .fresh⟩

/-- The session, if there is one. -/
def session? (workspace : Workspace) : Option Session :=
  workspace.stage.session?

/-! ## Settings -/

/-- Discards the session. -/
def discard (workspace : Workspace) : Workspace :=
  { workspace with stage := workspace.stage.discard }

/-- Takes over settings; the session is discarded if they are not the same as before. -/
def withSettings (workspace : Workspace) (settings : Settings) : Workspace :=
  if settings.same workspace.settings then workspace
  else discard { workspace with settings := settings }

/-- Takes over classpath entries. -/
def withClasspath (workspace : Workspace) (entries : List String) : Workspace :=
  workspace.withSettings { workspace.settings with classpath := entries }

/-- Takes over a library directory. -/
def withLibraryDirectory (workspace : Workspace) (directory? : Option Path) : Workspace :=
  workspace.withSettings { workspace.settings with libraryDirectory? := directory? }

/-- Takes over the classpath of a client's payload, and says whether it changed. -/
def withPayload (workspace : Workspace) (payload : Json) :
    Except Settings.PayloadError (Workspace × Bool) :=
  (workspace.settings.apply payload).map fun (settings, changed) =>
    if changed then (discard { workspace with settings := settings }, true)
    else (workspace, false)

/-! ## Reconciling -/

variable {m : Type → Type} [Monad m]

/-- The session to work on, and whether it has just been made. -/
def sessionOrNew (disk : Disk m) (workspace : Workspace) : m (Session × Bool) := do
  match workspace.stage with
  | .active session => return (session, false)
  | _ =>
    let classpath ←
      Classpath.resolve disk workspace.settings.classpath workspace.settings.libraryDirectory?
    return (.empty (.ofClasspath classpath), true)

/-- The root as an absolute path, as far as the working directory is known. -/
def rootPath (disk : Disk m) (root? : Option Path) : m (Option Path) :=
  match root? with
  | none => return none
  | some root => do
    match ← disk.absolute root with
    | .ok path => return some path
    | .error _ => return some root

/-- The session without the sources of changed documents, and how many these were. -/
def dropChanged (session : Session) (changed? : Option (List Url)) : Session × Nat :=
  match changed? with
  | none => (session, 0)
  | some changed => session.eraseAll (session.urls.filter changed.contains)

/-- Brings the session in line with the files below the root and the open documents. Without a root
there are only the open documents. -/
def reconcile (disk : Disk m) (editor : Editor m) (root? : Option Path) (workspace : Workspace) :
    m (Workspace × Summary) := do
  let changed ← editor.takeChanged
  let (session, fullBuild) ← sessionOrNew disk workspace
  let changed? := if fullBuild then none else some changed
  let (kept, removed) := dropChanged session changed?
  let root? ← rootPath disk root?
  let findings ← Survey.run disk editor changed? root? kept.loader
  let found := Survey.sources findings
  return ({ workspace with stage := .active (kept.insertAll found) },
    ⟨fullBuild, removed, found.length, Survey.errors findings⟩)

end Workspace

end WorkspaceSession
