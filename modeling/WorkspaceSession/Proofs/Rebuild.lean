/-
A reconciled session is a rebuilt one.

Keeping a session in line is only worth something if nobody can tell it from a session made anew.
This file proves that for runs of any length. Between two reconciliations anything may happen to the
documents, the settings and the disk; all that is asked is that a reconciliation is told of the
documents whose contribution from the disk is no longer the one it was at the last reconciliation.
Being told of more than that does no harm.

The invariant is one of a dirty set: every document that is not pending has in the session what the
disk of the last reconciliation and the present buffers have for it (`Workspace.UpToDate`). An event
makes pending what it touches, so it keeps the invariant, and a reconciliation empties the set.
-/
import WorkspaceSession.FileSystem.Edit
import WorkspaceSession.Proofs.Events
import WorkspaceSession.Proofs.Reconciling

set_option autoImplicit false

namespace WorkspaceSession

/-! ## Reports -/

/-- The editor with these buffers that reports these documents as changed. -/
def Buffers.reporting {m : Type → Type} [Monad m] (buffers : Buffers) (reported : List Url) :
    Editor m :=
  { buffers.atRest with takeChanged := pure reported }

theorem Buffers.consistent_reporting (buffers : Buffers) (reported : List Url) :
    (buffers.reporting reported : Editor Id).Consistent :=
  buffers.consistent_atRest

/-- A complete report: all pending documents, and all documents to which the disk contributes
something else than at the last survey. -/
structure Reports (root? : Option Path) (surveyed? : Option (Disk Id)) (disk : Disk Id)
    (buffers : Buffers) (reported : List Url) : Prop where
  /-- What the editor has noted since the last survey. -/
  pending : ∀ url ∈ buffers.changed, url ∈ reported
  /-- What has come to be different on the disk. -/
  onDisk : ∀ before, surveyed? = some before → ∀ root, root? = some root → ∀ url,
    Survey.contribution before root url ≠ Survey.contribution disk root url → url ∈ reported

/-! ## What a fresh source depends on -/

namespace Survey

/-- A fresh source is a matter of the buffer of its document and of the contribution from the
disk. -/
theorem fresh_congr {disk disk' : Disk Id} {buffers buffers' : Buffers} {root? : Option Path}
    {url : Url} (hbuffer : buffers.get? url = buffers'.get? url)
    (hdisk : ∀ root, root? = some root → contribution disk root url = contribution disk' root url)
    (loader : Loader) :
    fresh disk buffers.atRest root? loader url = fresh disk' buffers'.atRest root? loader url := by
  have hopen : ((buffers.atRest : Editor Id).isOpen url).run
      = ((buffers'.atRest : Editor Id).isOpen url).run := Buffers.isOpen_congr hbuffer
  have htext : ((buffers.atRest : Editor Id).text? url).run
      = ((buffers'.atRest : Editor Id).text? url).run := Buffers.text?_congr hbuffer
  have hcontribution : (root?.bind fun root => contribution disk root url)
      = root?.bind fun root => contribution disk' root url := by
    cases root? with
    | none => rfl
    | some root => exact hdisk root rfl
  unfold fresh documentSource?
  rw [hopen, htext, hcontribution]

/-- The loader that a fresh source gets makes no difference to what it says. -/
theorem map_view_fresh (disk : Disk Id) (editor : Editor Id) (root? : Option Path)
    (loader loader' : Loader) (url : Url) :
    (fresh disk editor root? loader url).map Source.view
      = (fresh disk editor root? loader' url).map Source.view := by
  rw [fresh, fresh]
  split_ifs
  · unfold documentSource?
    cases Location.ofUrl url with
    | error unknown => rfl
    | ok location =>
      dsimp only
      split_ifs
      · rw [Option.map_map, Option.map_map]
        rfl
      · rfl
  · rw [Option.map_map, Option.map_map]
    rfl

end Survey

namespace Workspace

/-! ## The invariant -/

/-- The session is in order, and has for every document that is not pending what the last surveyed
disk and the present buffers have for it. -/
structure UpToDate (root? : Option Path) (buffers : Buffers) (surveyed? : Option (Disk Id))
    (session : Session) : Prop where
  /-- The sources are in order. -/
  ordered : session.Ordered
  /-- The session was surveyed, and all but the pending documents are as they would be now. -/
  view : ∃ disk, surveyed? = some disk ∧ ∀ url, url ∉ buffers.changed → ∀ loader,
    session.view url = (Survey.fresh disk buffers.atRest root? loader url).map Source.view

/-- The workspace has a session that is in order and has for every document, pending or not, what
the disk and the buffers have for it now. -/
def Current (root? : Option Path) (buffers : Buffers) (disk : Disk Id) (workspace : Workspace) :
    Prop :=
  ∃ session, workspace.session? = some session ∧ session.Ordered ∧ ∀ url loader,
    session.view url = (Survey.fresh disk buffers.atRest root? loader url).map Source.view

theorem UpToDate.event {root? : Option Path} {buffers : Buffers} {surveyed? : Option (Disk Id)}
    {session : Session} (h : UpToDate root? buffers surveyed? session) (event : Event) :
    UpToDate root? (event.onBuffers buffers) surveyed? session := by
  obtain ⟨hordered, disk, hsurveyed, hview⟩ := h
  refine ⟨hordered, disk, hsurveyed, fun url hurl loader => ?_⟩
  -- A document that is not pending now was not before, and has kept its buffer.
  obtain ⟨hpending, hget⟩ := Event.get?_of_not_mem_changed hurl
  rw [hview url hpending loader, Survey.fresh_congr hget.symm (fun _ _ => rfl) loader]

variable {root? : Option Path} (hroot : ∀ root, root? = some root → root.isAbsolute = true)
  {workspace : Workspace} {buffers : Buffers} {disk : Disk Id}

include hroot

/-- A full build leaves for every document what there is for it now. -/
theorem current_reconcile_of_inactive (hsession : workspace.session? = none)
    (reported : List Url) :
    Current root? buffers disk
      (workspace.reconcile disk (buffers.reporting reported) root?).run.1 := by
  unfold Current
  obtain ⟨session, hresult, hget⟩ := get?_reconcile_of_inactive disk root?
    (buffers.consistent_reporting reported) hsession
  have hordered := ordered_reconcile_of_inactive disk _ root? hsession hresult
  refine ⟨session, hresult, hordered, fun url loader => ?_⟩
  rw [Session.view, hget, run_rootPath disk hroot]
  exact Survey.map_view_fresh disk _ root? _ loader url

/-- **A reconciliation repairs what is out of date**, and then every document, pending or not, is
as it would be now. -/
theorem UpToDate.reconcile {surveyed? : Option (Disk Id)} {session : Session}
    (hsession : workspace.session? = some session) (h : UpToDate root? buffers surveyed? session)
    {reported : List Url} (hreports : Reports root? surveyed? disk buffers reported) :
    Current root? buffers disk
      (workspace.reconcile disk (buffers.reporting reported) root?).run.1 := by
  unfold Current
  obtain ⟨session', hresult, hget⟩ := get?_reconcile_of_active disk root?
    (buffers.consistent_reporting reported) hsession
  have hordered := ordered_reconcile_of_active disk _ root? hsession h.ordered hresult
  obtain ⟨-, before, hsurveyed, hview⟩ := h
  refine ⟨session', hresult, hordered, fun url loader => ?_⟩
  rw [Session.view, hget, run_rootPath disk hroot]
  by_cases hurl : url ∈ reported
  · exact (congrArg (Option.map Source.view) (if_pos hurl)).trans
      (Survey.map_view_fresh disk _ root? _ loader url)
  · -- An unreported document was up to date on the disk of the last survey, and the report would
    -- name it if it had come to be different since.
    have hpending : url ∉ buffers.changed := fun hmem => hurl (hreports.pending url hmem)
    have hsame : ∀ root, root? = some root →
        Survey.contribution before root url = Survey.contribution disk root url := by
      intro root hroot
      by_contra hne
      exact hurl (hreports.onDisk before hsurveyed root hroot url hne)
    rw [← Survey.fresh_congr rfl hsame loader, ← hview url hpending loader]
    exact congrArg (Option.map Source.view) (if_neg hurl)

omit hroot

/-! ## Runs -/

/-- The workspaces and buffers that a run comes to under one root, with the disk of its last
reconciliation. The disk may be another one at every reconciliation. -/
inductive Run (root? : Option Path) : Workspace → Buffers → Option (Disk Id) → Prop
  /-- A new workspace. -/
  | start (settings : Settings) : Run root? (.ofSettings settings) .empty none
  /-- Something happens. -/
  | event {workspace : Workspace} {buffers : Buffers} {surveyed? : Option (Disk Id)}
      (event : Event) :
      Run root? workspace buffers surveyed? →
      Run root? (event.onWorkspace workspace) (event.onBuffers buffers) surveyed?
  /-- A reconciliation, with a complete report. -/
  | reconcile {workspace : Workspace} {buffers : Buffers} {surveyed? : Option (Disk Id)}
      {disk : Disk Id} {reported : List Url} :
      Run root? workspace buffers surveyed? → Reports root? surveyed? disk buffers reported →
      Run root? (workspace.reconcile disk (buffers.reporting reported) root?).run.1
        buffers.takeChanged.2 (some disk)

include hroot

/-- After a reconciliation, whether there was a session before or not, every document is as it would
be now. -/
theorem current_reconcile {surveyed? : Option (Disk Id)}
    (h : ∀ session, workspace.session? = some session → UpToDate root? buffers surveyed? session)
    {reported : List Url} (hreports : Reports root? surveyed? disk buffers reported) :
    Current root? buffers disk
      (workspace.reconcile disk (buffers.reporting reported) root?).run.1 := by
  cases hsession : workspace.session? with
  | none => exact current_reconcile_of_inactive hroot hsession reported
  | some session => exact (h session hsession).reconcile hroot hsession hreports

theorem Run.upToDate {surveyed? : Option (Disk Id)} (h : Run root? workspace buffers surveyed?) :
    ∀ session, workspace.session? = some session →
      UpToDate root? buffers surveyed? session := by
  induction h with
  | start settings => exact fun session hsession => nomatch hsession
  | @event workspace buffers surveyed? event _ ih =>
    intro session hsession
    -- A session that is there after the event was there before it.
    rcases event.session?_eq_or_none workspace with heq | hnone
    · exact (ih session (heq ▸ hsession)).event event
    · exact nomatch hnone.symm.trans hsession
  | @reconcile workspace buffers surveyed? disk reported _ hreports ih =>
    obtain ⟨session', hresult, hordered, hview⟩ := current_reconcile hroot ih hreports
    intro session hsession
    obtain rfl := Option.some.inj (hresult.symm.trans hsession)
    -- Every document is up to date here, so those that are not pending are.
    refine ⟨hordered, disk, rfl, fun url _ loader => ?_⟩
    rw [hview, Survey.fresh_congr (buffers.get?_takeChanged url).symm (fun _ _ => rfl) loader]

/-- **Reconciling is rebuilding.** At every reconciliation of a run that is told what came to be
different on the disk, the session becomes the table that a new workspace would build on the same
disk and the same documents, under any settings and whatever is reported to it. -/
theorem reconcile_eq_rebuild {surveyed? : Option (Disk Id)}
    (h : Run root? workspace buffers surveyed?) {reported : List Url}
    (hreports : Reports root? surveyed? disk buffers reported) (settings : Settings)
    (reported' : List Url) :
    ∃ session rebuilt,
      (workspace.reconcile disk (buffers.reporting reported) root?).run.1.session? = some session
        ∧ ((ofSettings settings).reconcile disk (buffers.reporting reported') root?).run.1.session?
            = some rebuilt
        ∧ session.table = rebuilt.table := by
  obtain ⟨session, hsession, hordered, hview⟩ :=
    current_reconcile hroot (h.upToDate hroot) hreports
  have hnew : (ofSettings settings).session? = none := rfl
  obtain ⟨rebuilt, hrebuilt, hordered', hview'⟩ :=
    current_reconcile_of_inactive hroot hnew reported'
  refine ⟨session, rebuilt, hsession, hrebuilt, Session.table_eq_of_view hordered hordered' ?_⟩
  intro url
  -- The view does not depend on the loader, so any one serves to name it.
  rw [hview url ⟨.ofClasspath ⟨[]⟩⟩, hview' url]

omit hroot in
/-- A document that was closed and a file that came to be: with both reported the session is as if
it were made now. -/
theorem reconcile_eq_rebuild_after_new_file :
    let root : Path := .ofString "/w"
    let path : Path := .ofString "/w/A.groovy"
    let before : Disk Id := (FileSystem.empty.makeDirectory root).atRest
    let after : Disk Id := (FileSystem.empty.writeFile path (.ofString "class A")).atRest
    let opened : Buffers := Buffers.empty.openDocument ⟨"file:///w/B.groovy"⟩ "class B" 1
    let closed : Buffers := opened.takeChanged.2.closeDocument ⟨"file:///w/B.groovy"⟩
    let reported : List Url := [⟨"file:///w/A.groovy"⟩, ⟨"file:///w/B.groovy"⟩]
    let surveyed : Workspace :=
      ((ofSettings ⟨[], none⟩).reconcile before (opened.reporting opened.changed) (some root)).run.1
    ∃ session rebuilt,
      (surveyed.reconcile after (closed.reporting reported) (some root)).run.1.session?
          = some session
        ∧ ((ofSettings ⟨["lib/*"], none⟩).reconcile after (closed.reporting [])
            (some root)).run.1.session? = some rebuilt
        ∧ session.table = rebuilt.table := by
  intro root path before after opened closed reported surveyed
  have hroot : ∀ root', some root = some root' → root'.isAbsolute = true := by
    rintro _ ⟨⟩
    decide
  have hopened : Run (some root) (ofSettings ⟨[], none⟩) opened none :=
    .event (.openDocument ⟨"file:///w/B.groovy"⟩ "class B" 1) (.start ⟨[], none⟩)
  have hfirst : Reports (some root) none before opened opened.changed :=
    ⟨fun _ => id, fun _ h => (nomatch h)⟩
  have hclosed : Run (some root) surveyed closed (some before) :=
    .event (.closeDocument ⟨"file:///w/B.groovy"⟩) (.reconcile hopened hfirst)
  have hsecond : Reports (some root) (some before) after closed reported := by
    refine ⟨by decide, ?_⟩
    rintro _ ⟨⟩ _ ⟨⟩ url hne
    -- There is nothing below the root before, and one source file after.
    have hbefore : Survey.sourceFiles before root = [] := rfl
    have hafter : Survey.sourceFiles after root = [path] := rfl
    rw [Survey.contribution, Survey.contribution, hbefore, hafter] at hne
    have hurl : Url.ofFilePath? path = some url := by
      by_contra hother
      simp [Survey.contributionOf, hother] at hne
    have hpath : Url.ofFilePath? path = some ⟨"file:///w/A.groovy"⟩ := by decide
    rw [Option.some.inj (hurl.symm.trans hpath)]
    exact List.mem_cons_self
  exact reconcile_eq_rebuild hroot hclosed hsecond ⟨["lib/*"], none⟩ []

end Workspace

end WorkspaceSession
