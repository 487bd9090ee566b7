/-
A reconciliation, whether there was a session or not.

With a session a reconciliation drops the changed documents and surveys these; without one it makes
a session and surveys everything. Laws that do not care which of the two happened are stated over
what both have in common: a session to start from (`Workspace.base`), the documents that the survey
is about (`Workspace.about`), what is kept and what is found. `Workspace.run_reconcile` says that
settling the findings on what is kept is all that a reconciliation does.

In what is found no two sources compete for a document: each of them is the fresh source of its
document (`Survey.fresh_of_mem_sources`). So the session at the end is known document by document
(`Workspace.get?_sessionAfter`).
-/
import WorkspaceSession.Proofs.OpenDocuments

set_option autoImplicit false

namespace WorkspaceSession

namespace Survey

/-! ## One source for each document -/

variable {disk : Disk Id} {editor : Editor Id} {changed? : Option (List Url)} {root? : Option Path}
  {loader : Loader}

theorem run_run :
    (run disk editor changed? root? loader).run
      = (inWorkspace disk editor changed? loader root?).run
        ++ (documents editor changed? root? loader).run := rfl

theorem fileSource?_eq_some_iff {path : Path} {s : Source} :
    fileSource? disk editor changed? loader path = some s
      ↔ ∃ url bytes, Url.ofFilePath? path = some url ∧ (editor.isOpen url).run = false
        ∧ isAbout changed? url = true ∧ (disk.read path).run = .ok bytes
        ∧ s = .ofDisk url path bytes loader := by
  unfold fileSource?
  cases hurl : Url.ofFilePath? path with
  | none => simp
  | some url =>
    dsimp only
    split_ifs with hguard
    · cases hread : (disk.read path).run with
      | error e => simp [Except.toOption]
      | ok bytes =>
        constructor
        · rintro ⟨⟩
          exact ⟨url, bytes, rfl, hguard.1, hguard.2, rfl, rfl⟩
        · rintro ⟨url', bytes', heq, -, -, hbytes, rfl⟩
          rw [Option.some.inj heq, Except.ok.inj hbytes]
          rfl
    · constructor
      · intro h
        cases h
      · rintro ⟨url', bytes, heq, hclosed, habout, -⟩
        obtain rfl := Option.some.inj heq
        exact absurd ⟨hclosed, habout⟩ hguard

theorem fresh_of_isOpen {buffers : Buffers} {url : Url} (h : buffers.isOpen url = true) :
    fresh disk buffers.atRest root? loader url
      = documentSource? buffers.atRest root? loader url :=
  if_pos h

theorem fresh_of_isClosed {buffers : Buffers} {url : Url} (h : buffers.isOpen url = false) :
    fresh disk buffers.atRest root? loader url
      = (root?.bind fun root => contribution disk root url).map fun (path, bytes) =>
          .ofDisk url path bytes loader :=
  if_neg fun hopen => Bool.false_ne_true (h.symm.trans hopen)

/-- **Nothing competes.** Every source that a survey finds is the fresh source of its document, so
two sources of one document are the same one. -/
theorem fresh_of_mem_sources (hdisk : disk.Lawful) (heditor : editor.Consistent) {s : Source}
    (hs : s ∈ sources (run disk editor changed? root? loader).run) :
    fresh disk editor root? loader s.url = some s := by
  rw [run_run, sources, List.filterMap_append, List.mem_append] at hs
  rcases hs with hs | hs
  · cases root? with
    | none => exact absurd hs List.not_mem_nil
    | some root =>
      change s ∈ sources (files disk editor changed? loader root).run at hs
      rw [sources_files, List.mem_filterMap] at hs
      obtain ⟨path, hpath, hs⟩ := hs
      obtain ⟨url, bytes, hurl, hclosed, -, hread, rfl⟩ := fileSource?_eq_some_iff.mp hs
      have hsource := sourceFile_of_mem_sourceFiles hpath
      exact (fresh_eq_some_iff editor (some root) loader hdisk).mpr
        (.file hclosed rfl hsource hurl hread)
  · change s ∈ sources (documents editor changed? root? loader).run at hs
    rw [sources_documents, List.mem_filterMap] at hs
    obtain ⟨url, hurl, hs⟩ := hs
    split_ifs at hs
    rw [url_of_documentSource? editor root? loader hs, fresh, if_pos ((heditor url).mp hurl), hs]

end Survey

namespace Workspace

variable (disk : Disk Id) (editor : Editor Id) (root? : Option Path) (workspace : Workspace)

/-- The session that a reconciliation starts from: the present one, or a new one without sources. -/
def base : Session :=
  workspace.session?.getD (.empty (newLoader disk workspace).config)

/-- The documents that a reconciliation is about: those that are reported as changed if there is a
session, and all of them otherwise. -/
def about (reported : List Url) : Option (List Url) :=
  workspace.session?.map fun _ => reported

/-- What a reconciliation keeps of the session, and how many sources it removes. -/
def kept : Session × Nat :=
  dropChanged (workspace.base disk) (workspace.about editor.takeChanged.run)

/-- What a reconciliation finds. -/
def findings : List Survey.Finding :=
  (Survey.run disk editor (workspace.about editor.takeChanged.run) (rootPath disk root?).run
    (workspace.base disk).loader).run

/-- The sources that a reconciliation adds, in the order in which it adds them. -/
def built : List Source :=
  Survey.sources (workspace.findings disk editor root?)

/-- The session that a reconciliation leaves. -/
def sessionAfter : Session :=
  (workspace.kept disk editor).1.insertAll (workspace.built disk editor root?)

/-- **One shape.** A reconciliation settles what it finds on what it keeps. -/
theorem run_reconcile :
    (workspace.reconcile disk editor root?).run
      = workspace.settled workspace.session?.isNone (workspace.kept disk editor)
          (workspace.findings disk editor root?) := by
  unfold kept findings base about
  cases hsession : workspace.session? with
  | none => exact run_reconcile_of_inactive disk editor root? hsession
  | some session => exact run_reconcile_of_active disk editor root? hsession

theorem session?_reconcile :
    (workspace.reconcile disk editor root?).run.1.session?
      = some (workspace.sessionAfter disk editor root?) := by
  rw [run_reconcile]
  rfl

/-! ## What it is about -/

theorem isAbout_about {workspace : Workspace} {reported : List Url} {url : Url} :
    Survey.isAbout (workspace.about reported) url = true
      ↔ workspace.session? = none ∨ url ∈ reported := by
  unfold about
  cases workspace.session? with
  | none => simp [Survey.isAbout]
  | some session => simp [Survey.isAbout]

theorem isAbout_iff_surveys {workspace : Workspace} {buffers : Buffers} {url : Url} :
    Survey.isAbout (workspace.about (buffers.atRest : Editor Id).takeChanged.run) url = true
      ↔ workspace.Surveys buffers url :=
  isAbout_about

/-! ## The session that it leaves -/

theorem ordered_base (hordered : ∀ session, workspace.session? = some session → session.Ordered) :
    (workspace.base disk).Ordered := by
  unfold base
  cases hsession : workspace.session? with
  | none => exact Session.ordered_empty _
  | some session => exact hordered session hsession

theorem ordered_kept (hordered : ∀ session, workspace.session? = some session → session.Ordered) :
    (workspace.kept disk editor).1.Ordered := by
  have hbase := workspace.ordered_base disk hordered
  unfold kept
  cases workspace.about editor.takeChanged.run with
  | none => exact hbase
  | some changed => exact hbase.eraseAll _

/-- What is kept has no source of a document that the reconciliation is about, and of every other
one what there was. -/
theorem get?_kept (url : Url) :
    (workspace.kept disk editor).1.get? url
      = if Survey.isAbout (workspace.about editor.takeChanged.run) url then none
        else (workspace.base disk).get? url := by
  unfold kept base about
  cases workspace.session? with
  | none => rfl
  | some session =>
    rw [Option.map_some, get?_dropChanged]
    simp only [Survey.isAbout, List.contains_iff_mem]

variable {editor} in
/-- **Document by document.** A reconciliation leaves the fresh source of every document that it is
about, and what there was of every other one. -/
theorem get?_sessionAfter (heditor : editor.Consistent) (url : Url) :
    (workspace.sessionAfter disk editor root?).get? url
      = if Survey.isAbout (workspace.about editor.takeChanged.run) url then
          Survey.fresh disk editor (rootPath disk root?).run (workspace.base disk).loader url
        else (workspace.base disk).get? url := by
  rw [sessionAfter, Session.get?_insertAll, built, findings,
    Survey.find?_sources_run disk _ _ _ heditor, get?_kept]
  split_ifs
  · exact Option.or_none
  · exact Option.none_or

/-- The same with buffers at rest. -/
theorem get?_sessionAfter_atRest (buffers : Buffers) (url : Url) :
    (workspace.sessionAfter disk buffers.atRest root?).get? url
      = if workspace.Surveys buffers url then
          Survey.fresh disk buffers.atRest (rootPath disk root?).run
            (workspace.base disk).loader url
        else (workspace.base disk).get? url := by
  rw [get?_sessionAfter disk root? workspace buffers.consistent_atRest]
  exact if_congr isAbout_iff_surveys rfl rfl

end Workspace

end WorkspaceSession
