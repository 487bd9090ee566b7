/-
Calls during which nothing happens.

Reconciling is written over any monad, because a disk and an editor may do anything between two
questions. The laws about one call in which they do nothing are stated over `Id`, where a disk and
an editor are plain functions. This file connects the two: over a state that its questions leave as
it is, a reconciliation is the one over `Id`, asked in that state
(`Workspace.run_reconcile_of_rests`).

One question is meant to move the state: taking the changes, which comes first. For an editor whose
buffers are part of the state, the connection therefore also says what a reconciliation does to the
buffers: it forgets the pending changes and does nothing else
(`Workspace.run_reconcile_editor`).
-/
import Mathlib.Tactic.Common
import WorkspaceSession.Buffers
import WorkspaceSession.Workspace

set_option autoImplicit false

namespace WorkspaceSession

/-! ## Computations that stay where they are -/

/-- Started in `s`, a computation gives the answer and stays in `s`. -/
def Rests {σ α : Type} (s : σ) (x : StateM σ α) (answer : Id α) : Prop :=
  x.run s = (answer.run, s)

namespace Rests

variable {σ α β : Type} {s : σ}

theorem pure (a : α) : Rests s (Pure.pure a) (Pure.pure a) :=
  rfl

/-- Behind a computation that comes to `s`, one that stays there. -/
theorem run_bind {start : σ} {x : StateM σ α} {a : Id α} {f : α → StateM σ β} {g : α → Id β}
    (hx : x.run start = (a.run, s)) (hf : ∀ v, Rests s (f v) (g v)) :
    (x >>= f).run start = ((a >>= g).run, s) := by
  rw [StateT.run_bind, hx]
  exact hf a.run

theorem bind {x : StateM σ α} {a : Id α} {f : α → StateM σ β} {g : α → Id β} (hx : Rests s x a)
    (hf : ∀ v, Rests s (f v) (g v)) : Rests s (x >>= f) (a >>= g) :=
  run_bind hx hf

theorem mapM {f : α → StateM σ β} {g : α → Id β} {l : List α}
    (h : ∀ a ∈ l, Rests s (f a) (g a)) : Rests s (l.mapM f) (l.mapM g) := by
  induction l with
  | nil =>
    rw [List.mapM_nil, List.mapM_nil]
    exact pure []
  | cons a l ih =>
    rw [List.mapM_cons, List.mapM_cons]
    refine bind (h a List.mem_cons_self) fun b => ?_
    exact bind (ih fun a' ha' => h a' (List.mem_cons_of_mem _ ha')) fun bs => pure (b :: bs)

end Rests

/-- In state `s` a disk answers as `still` does, and its questions leave the state. -/
structure Disk.RestsAt {σ : Type} (disk : Disk (StateM σ)) (s : σ) (still : Disk Id) : Prop where
  /-- Where relative paths are read from. -/
  workingDirectory : Rests s disk.workingDirectory still.workingDirectory
  /-- What a path leads to. -/
  kind? : ∀ path, Rests s (disk.kind? path) (still.kind? path)
  /-- What a path names. -/
  ownKind : ∀ path, Rests s (disk.ownKind path) (still.ownKind path)
  /-- The entries of directories. -/
  entries : ∀ path, Rests s (disk.entries path) (still.entries path)
  /-- The contents of files. -/
  read : ∀ path, Rests s (disk.read path) (still.read path)

/-- In state `s` an editor answers as `still` does, and its questions leave the state. Of the
changes nothing is said. -/
structure Editor.RestsAt {σ : Type} (editor : Editor (StateM σ)) (s : σ) (still : Editor Id) :
    Prop where
  /-- The open documents. -/
  openUrls : Rests s editor.openUrls still.openUrls
  /-- The texts of their buffers. -/
  text? : ∀ url, Rests s (editor.text? url) (still.text? url)
  /-- Whether a document is open. -/
  isOpen : ∀ url, Rests s (editor.isOpen url) (still.isOpen url)

/-- A disk as a value, with nothing happening to it. -/
def Disk.frozen {m : Type → Type} [Monad m] (disk : Disk Id) : Disk m where
  workingDirectory := pure disk.workingDirectory.run
  kind? := fun path => pure (disk.kind? path).run
  ownKind := fun path => pure (disk.ownKind path).run
  entries := fun path => pure (disk.entries path).run
  read := fun path => pure (disk.read path).run

theorem Disk.restsAt_frozen {σ : Type} (disk : Disk Id) (s : σ) :
    (disk.frozen : Disk (StateM σ)).RestsAt s disk where
  workingDirectory := rfl
  kind? := fun _ => rfl
  ownKind := fun _ => rfl
  entries := fun _ => rfl
  read := fun _ => rfl

theorem Buffers.restsAt_atRest {σ : Type} (buffers : Buffers) (s : σ) :
    (buffers.atRest : Editor (StateM σ)).RestsAt s buffers.atRest where
  openUrls := rfl
  text? := fun _ => rfl
  isOpen := fun _ => rfl

theorem Buffers.restsAt_editor {σ : Type} (get : σ → Buffers) (set : σ → Buffers → σ) (s : σ) :
    (Buffers.editor get set).RestsAt s (get s).atRest where
  openUrls := rfl
  text? := fun _ => rfl
  isOpen := fun _ => rfl

section

variable {σ : Type} {s : σ} {disk : Disk (StateM σ)} {still : Disk Id}
  (hdisk : disk.RestsAt s still)

/-! ## The disk -/

section

include hdisk

theorem Disk.RestsAt.isDirectory (path : Path) :
    Rests s (disk.isDirectory path) (still.isDirectory path) :=
  (hdisk.kind? path).bind fun _ => .pure _

theorem Disk.RestsAt.isFile (path : Path) : Rests s (disk.isFile path) (still.isFile path) :=
  (hdisk.kind? path).bind fun _ => .pure _

namespace Classpath

theorem rests_archivesAmong (paths : List Path) :
    Rests s (archivesAmong disk paths) (archivesAmong still paths) := by
  induction paths with
  | nil => exact .pure _
  | cons path rest ih =>
    have hleads : Rests s (leadsToArchive disk path) (leadsToArchive still path) := by
      unfold leadsToArchive
      split_ifs
      · exact hdisk.isFile path
      · exact .pure _
    exact hleads.bind fun _ => ih.bind fun _ => .pure _

theorem rests_archivesOfDirectory (directory : Path) :
    Rests s (archivesOfDirectory disk directory) (archivesOfDirectory still directory) := by
  refine (hdisk.isDirectory directory).bind fun isDirectory => ?_
  split_ifs
  · refine (hdisk.entries directory).bind fun answer => ?_
    cases answer with
    | error e => exact .pure _
    | ok entries => exact rests_archivesAmong hdisk _
  · exact .pure _

theorem rests_archivesOfEntry (entry : String) :
    Rests s (archivesOfEntry disk entry) (archivesOfEntry still entry) := by
  unfold archivesOfEntry
  cases entry.toList.getLast? with
  | none => exact .pure _
  | some c =>
    dsimp only
    split_ifs
    · exact rests_archivesOfDirectory hdisk _
    · exact rests_archivesAmong hdisk _

theorem rests_archivesOfEntries (entries : List String) :
    Rests s (archivesOfEntries disk entries) (archivesOfEntries still entries) := by
  induction entries with
  | nil => exact .pure _
  | cons entry rest ih =>
    exact (rests_archivesOfEntry hdisk entry).bind fun _ => ih.bind fun _ => .pure _

theorem rests_resolve (entries : List String) (libraryDirectory? : Option Path) :
    Rests s (resolve disk entries libraryDirectory?) (resolve still entries libraryDirectory?) := by
  have hentries := rests_archivesOfEntries hdisk entries
  cases libraryDirectory? with
  | none => exact Rests.bind (.pure _) fun _ => hentries.bind fun _ => .pure _
  | some directory =>
    exact (rests_archivesOfDirectory hdisk directory).bind fun _ => hentries.bind fun _ => .pure _

end Classpath

end

/-! ## The survey -/

namespace Survey

section

include hdisk

/-- A walk whose visits rest. -/
theorem rests_walk {β : Type} {visit : Path → NodeKind → StateM σ (List β)}
    {visit' : Path → NodeKind → Id (List β)} (refused : Path → OsError → β)
    (hvisit : ∀ path kind, Rests s (visit path kind) (visit' path kind)) (depth : Nat)
    (path : Path) (kind : NodeKind) :
    Rests s (walk disk visit refused depth path kind) (walk still visit' refused depth path kind) := by
  induction depth generalizing path kind with
  | zero => exact .pure _
  | succ depth ih =>
    rw [walk, walk]
    refine (hvisit path kind).bind fun here => ?_
    split_ifs
    · refine (hdisk.entries path).bind fun answer => ?_
      cases answer with
      | error e => exact .pure _
      | ok entries => exact (Rests.mapM fun entry _ => ih _ _).bind fun _ => .pure _
    · exact .pure _

theorem rests_isSourceFile (path : Path) (kind : NodeKind) :
    Rests s (isSourceFile disk path kind) (isSourceFile still path kind) := by
  unfold isSourceFile
  split_ifs
  · cases kind with
    | link => exact hdisk.isFile path
    | file => exact .pure _
    | directory => exact .pure _
    | other => exact .pure _
  · exact .pure _

end

variable {editor : Editor (StateM σ)} {quiet : Editor Id} (heditor : editor.RestsAt s quiet)
  (changed? : Option (List Url)) (loader : Loader)

section

include hdisk heditor

theorem rests_readSource (path : Path) (url : Url) :
    Rests s (readSource disk editor changed? loader path url)
      (readSource still quiet changed? loader path url) := by
  refine (heditor.isOpen url).bind fun isOpen => ?_
  split_ifs
  · exact .pure _
  · refine (hdisk.read path).bind fun answer => ?_
    cases answer with
    | error e => exact .pure _
    | ok bytes => exact .pure _
  · exact .pure _

theorem rests_findFile (path : Path) (kind : NodeKind) :
    Rests s (findFile disk editor changed? loader path kind)
      (findFile still quiet changed? loader path kind) := by
  refine (rests_isSourceFile hdisk path kind).bind fun isSource => ?_
  split_ifs
  · cases Url.ofFilePath? path with
    | none => exact .pure _
    | some url => exact rests_readSource hdisk heditor changed? loader path url
  · exact .pure _

theorem rests_files (root : Path) :
    Rests s (files disk editor changed? loader root) (files still quiet changed? loader root) := by
  have hvisit := rests_findFile hdisk heditor changed? loader
  have hwalk := rests_walk hdisk (fun path e => Except.error (.walk root path e)) hvisit maxDepth
    root
  refine (hdisk.kind? root).bind fun target? => ?_
  cases target? with
  | none => exact .pure _
  | some target =>
    refine (hdisk.ownKind root).bind fun own => ?_
    rcases own with e | kind
    · exact .pure _
    · cases kind with
      | link =>
        refine (hdisk.isDirectory root).bind fun isDirectory => ?_
        split_ifs
        · exact hwalk .directory
        · exact hvisit root .link
      | directory => exact hwalk .directory
      | file => exact hwalk .file
      | other => exact hwalk .other

end

section

include heditor

theorem rests_findDocument (root? : Option Path) (url : Url) :
    Rests s (findDocument editor changed? root? loader url)
      (findDocument quiet changed? root? loader url) := by
  unfold findDocument
  split_ifs
  · cases Location.ofUrl url with
    | error unknown => exact .pure _
    | ok location =>
      dsimp only
      split_ifs
      · refine (heditor.text? url).bind fun answer => ?_
        cases answer with
        | none => exact .pure _
        | some content => exact .pure _
      · exact .pure _
  · exact .pure _

theorem rests_documents (root? : Option Path) :
    Rests s (documents editor changed? root? loader) (documents quiet changed? root? loader) := by
  refine heditor.openUrls.bind fun urls => ?_
  have hall : Rests s (urls.mapM (findDocument editor changed? root? loader))
      (urls.mapM (findDocument quiet changed? root? loader)) :=
    Rests.mapM fun url _ => rests_findDocument heditor changed? loader root? url
  exact hall.bind fun _ => .pure _

end

include hdisk heditor

theorem rests_run (root? : Option Path) :
    Rests s (run disk editor changed? root? loader) (run still quiet changed? root? loader) := by
  have hfiles : Rests s (inWorkspace disk editor changed? loader root?)
      (inWorkspace still quiet changed? loader root?) := by
    cases root? with
    | none => exact .pure _
    | some root => exact rests_files hdisk heditor changed? loader root
  exact hfiles.bind fun _ =>
    (rests_documents heditor changed? loader root?).bind fun _ => .pure _

end Survey

/-! ## Reconciliations -/

namespace Workspace

section

include hdisk

theorem rests_sessionOrNew (workspace : Workspace) :
    Rests s (sessionOrNew disk workspace) (sessionOrNew still workspace) := by
  have hresolve := Classpath.rests_resolve hdisk workspace.settings.classpath
    workspace.settings.libraryDirectory?
  unfold sessionOrNew
  cases workspace.stage with
  | active session => exact .pure _
  | fresh => exact hresolve.bind fun _ => .pure _
  | discarded => exact hresolve.bind fun _ => .pure _

theorem rests_rootPath (root? : Option Path) :
    Rests s (rootPath disk root?) (rootPath still root?) := by
  cases root? with
  | none => exact .pure _
  | some root =>
    have habsolute : Rests s (disk.absolute root) (still.absolute root) := by
      unfold Disk.absolute
      split_ifs
      · exact .pure _
      · exact hdisk.workingDirectory.bind fun _ => .pure _
    refine habsolute.bind fun answer => ?_
    cases answer with
    | error e => exact .pure _
    | ok path => exact .pure _

end

/-- **Nothing happens.** A reconciliation whose disk and editor stay as they are once the changes
have been taken does what it does on the disk and the editor as values. -/
theorem run_reconcile_of_rests {editor : Editor (StateM σ)} {quiet : Editor Id} {start : σ}
    (htaken : editor.takeChanged.run start = (quiet.takeChanged.run, s))
    (hdisk : disk.RestsAt s still) (heditor : editor.RestsAt s quiet) (root? : Option Path)
    (workspace : Workspace) :
    (workspace.reconcile disk editor root?).run start
      = ((workspace.reconcile still quiet root?).run, s) := by
  unfold reconcile
  refine Rests.run_bind htaken fun changed => ?_
  refine (rests_sessionOrNew hdisk workspace).bind fun made => ?_
  refine (rests_rootPath hdisk root?).bind fun root? => ?_
  exact (Survey.rests_run hdisk heditor _ _ root?).bind fun _ => .pure _

/-- **What a reconciliation does to the buffers.** With buffers in the state, and a disk that stays
as it is, a reconciliation sees the buffers at rest and leaves them without pending changes. -/
theorem run_reconcile_editor {σ : Type} {get : σ → Buffers} {set : σ → Buffers → σ}
    (hget : ∀ s buffers, get (set s buffers) = buffers) {disk : Disk (StateM σ)} {still : Disk Id}
    {s : σ} (hdisk : disk.RestsAt (set s (get s).takeChanged.2) still) (root? : Option Path)
    (workspace : Workspace) :
    (workspace.reconcile disk (Buffers.editor get set) root?).run s
      = ((workspace.reconcile still (get s).atRest root?).run,
          set s (get s).takeChanged.2) := by
  have htaken := Buffers.restsAt_editor get set (set s (get s).takeChanged.2)
  rw [hget] at htaken
  -- The answers about documents do not depend on the changes, which alone have been taken.
  have heditor : (Buffers.editor get set).RestsAt (set s (get s).takeChanged.2) (get s).atRest :=
    ⟨htaken.openUrls, htaken.text?, htaken.isOpen⟩
  exact run_reconcile_of_rests rfl hdisk heditor root? workspace

end Workspace

end

end WorkspaceSession
