/-
Where the sources of a session come from.

Right after a reconciliation every source of the session is faithful: it is taken from a buffer
exactly if its document is open, then with the text that the buffer has now, and otherwise it was
read from a file whose URL is its own. No single function restores this. An event breaks it for the
documents that it touches, and a reconciliation repairs only the changed ones, under whatever root
it is given; the invariant that carries it through a run is therefore the weaker one that all
sources but those of pending documents are faithful (`Workspace.FaithfulButPending`).

The disk takes no part in the argument. It may change unreported, refuse to be read, or answer
differently every time it is asked in the middle of a walk.
-/
import WorkspaceSession.FileSystem.Edit
import WorkspaceSession.Proofs.Events
import WorkspaceSession.Proofs.Findings

set_option autoImplicit false

namespace WorkspaceSession

/-! ## Faithful sources -/

/-- A source says where it comes from and is still what it says. -/
structure Source.Faithful (buffers : Buffers) (source : Source) : Prop where
  /-- It is taken from a buffer exactly if its document is open. -/
  inMemory_iff : source.origin = .inMemory ↔ buffers.isOpen source.url = true
  /-- A source from a buffer has the text of the buffer and lies where its document lies. -/
  ofBuffer : source.origin = .inMemory →
    buffers.text? source.url = some source.content
      ∧ Location.ofUrl source.url = .ok source.location
  /-- A source from a file has the URL of the file. -/
  ofFile : source.origin = .disk → Url.ofFilePath? source.location = some source.url

/-- Whether a source is faithful depends on the buffer of its document only. -/
theorem Source.Faithful.congr {buffers buffers' : Buffers} {source : Source}
    (h : buffers.get? source.url = buffers'.get? source.url) (hs : source.Faithful buffers) :
    source.Faithful buffers' where
  inMemory_iff := Buffers.isOpen_congr h ▸ hs.inMemory_iff
  ofBuffer := Buffers.text?_congr h ▸ hs.ofBuffer
  ofFile := hs.ofFile

/-- What a survey finds with an editor at rest is faithful to its buffers. -/
theorem Survey.Found.faithful {buffers : Buffers} {changed? : Option (List Url)} {loader : Loader}
    {source : Source}
    (h : Survey.Found (fun url => buffers.isOpen url = false)
      (fun url text => buffers.text? url = some text) changed? loader source) :
    source.Faithful buffers := by
  cases h with
  | file bytes about isClosed named =>
    refine ⟨?_, fun horigin => (nomatch horigin), fun _ => named⟩
    simp [Source.ofDisk, isClosed]
  | document about located held =>
    refine ⟨?_, fun _ => ⟨held, located⟩, fun horigin => (nomatch horigin)⟩
    simp [Source.ofBuffer, Buffers.isOpen_of_text? held]

namespace Workspace

/-! ## One step -/

/-- All sources of the session are faithful but for those of pending documents. -/
def FaithfulButPending (workspace : Workspace) (buffers : Buffers) : Prop :=
  ∀ session, workspace.session? = some session →
    ∀ source ∈ session.sources, source.url ∉ buffers.changed → source.Faithful buffers

/-- An event keeps the invariant: what it touches is pending afterwards. -/
theorem FaithfulButPending.event {workspace : Workspace} {buffers : Buffers}
    (h : workspace.FaithfulButPending buffers) (event : Event) :
    (event.onWorkspace workspace).FaithfulButPending (event.onBuffers buffers) := by
  intro session hsession source hsource hpending
  obtain ⟨hpending, hget⟩ := Event.get?_of_not_mem_changed hpending
  rcases event.session?_eq_or_none workspace with heq | hnone
  · rw [heq] at hsession
    exact (h session hsession source hsource hpending).congr hget.symm
  · rw [hnone] at hsession
    exact nomatch hsession

/-- **A reconciliation repairs the session**: the pending documents lose their sources, all others
were faithful already, and what is found is faithful. -/
theorem FaithfulButPending.reconcile {workspace : Workspace} {buffers : Buffers}
    (h : workspace.FaithfulButPending buffers) {σ : Type} (disk : Disk (StateM σ)) (s : σ)
    (root? : Option Path) :
    ∃ session,
      ((workspace.reconcile disk buffers.atRest root?).run s).1.1.session? = some session
        ∧ ∀ source ∈ session.sources, source.Faithful buffers := by
  have heditor := buffers.ensures_atRest (σ := σ)
  cases hsession : workspace.session? with
  | none =>
    obtain ⟨findings, hresult, hfound⟩ :=
      reconcile_inactive disk heditor root? hsession s
    refine ⟨_, by rw [hresult]; rfl, ?_⟩
    intro source hsource
    rcases Session.mem_sources_insertAll hsource with hmem | hmem
    · exact (hfound source hmem).faithful
    · exact absurd hmem List.not_mem_nil
  | some session =>
    obtain ⟨findings, hresult, hfound⟩ :=
      reconcile_active disk heditor root? (stage_of_session? hsession) s
    refine ⟨_, by rw [hresult]; rfl, ?_⟩
    intro source hsource
    rcases Session.mem_sources_insertAll hsource with hmem | hmem
    · exact (hfound source hmem).faithful
    · -- What was not dropped is not pending: a pending document with a source is dropped.
      obtain ⟨hmem, hkept⟩ := Session.mem_sources_eraseAll hmem
      refine h session hsession source hmem fun hpending => hkept ?_
      refine List.mem_filter.mpr ⟨List.mem_map_of_mem hmem, ?_⟩
      exact List.contains_iff_mem.mpr hpending

/-! ## Runs -/

/-- The workspaces and buffers that a run comes to, from a new workspace and an editor without
documents. Every reconciliation may have its own root and its own disk, in any state. -/
inductive Reachable : Workspace → Buffers → Prop
  /-- A new workspace. -/
  | start (settings : Settings) : Reachable (.ofSettings settings) .empty
  /-- Something happens. -/
  | event {workspace : Workspace} {buffers : Buffers} (event : Event) :
      Reachable workspace buffers →
      Reachable (event.onWorkspace workspace) (event.onBuffers buffers)
  /-- A reconciliation takes the pending changes. -/
  | reconcile {workspace : Workspace} {buffers : Buffers} {σ : Type} (disk : Disk (StateM σ))
      (s : σ) (root? : Option Path) :
      Reachable workspace buffers →
      Reachable ((workspace.reconcile disk buffers.atRest root?).run s).1.1 buffers.takeChanged.2

theorem Reachable.faithfulButPending {workspace : Workspace} {buffers : Buffers}
    (h : Reachable workspace buffers) : workspace.FaithfulButPending buffers := by
  induction h with
  | start settings => exact fun session hsession => nomatch hsession
  | event event _ ih => exact ih.event event
  | @reconcile workspace buffers σ disk s root? _ ih =>
    obtain ⟨session, hsession, hfaithful⟩ := ih.reconcile disk s root?
    -- All sources are faithful now; taking the changes leaves the buffers as they are.
    intro session' hsession' source hsource _
    obtain rfl := Option.some.inj (hsession.symm.trans hsession')
    exact (hfaithful source hsource).congr (buffers.get?_takeChanged source.url).symm

/-- **Origins.** Whatever happened before and whatever the disk does, right after a reconciliation
there is a session, and each of its sources comes from a buffer exactly if its document is open,
then with the present text and location of the document, and otherwise from a file of its URL. -/
theorem reconcile_faithful {workspace : Workspace} {buffers : Buffers}
    (h : Reachable workspace buffers) {σ : Type} (disk : Disk (StateM σ)) (s : σ)
    (root? : Option Path) :
    ∃ session,
      ((workspace.reconcile disk buffers.atRest root?).run s).1.1.session? = some session
        ∧ ∀ source ∈ session.sources, source.Faithful buffers.takeChanged.2 := by
  obtain ⟨session, hsession, hfaithful⟩ := h.faithfulButPending.reconcile disk s root?
  refine ⟨session, hsession, fun source hsource => ?_⟩
  exact (hfaithful source hsource).congr (buffers.get?_takeChanged source.url).symm

/-- A document that was surveyed while it was open comes from its file after it has been closed. -/
theorem reconcile_faithful_after_close :
    let url : Url := ⟨"file:///w/A.groovy"⟩
    let path : Path := .ofString "/w/A.groovy"
    let disk : Disk (StateM Unit) :=
      (FileSystem.empty.writeFile path (.ofString "class A")).atRest
    let opened : Buffers := Buffers.empty.openDocument url "class B" 1
    let closed : Buffers := opened.takeChanged.2.closeDocument url
    let surveyed : Workspace :=
      (((ofSettings ⟨[], none⟩).reconcile disk opened.atRest none).run ()).1.1
    ∃ session,
      ((surveyed.reconcile disk closed.atRest (some (.ofString "/w"))).run ()).1.1.session?
          = some session
        ∧ ∀ source ∈ session.sources, source.Faithful closed.takeChanged.2 := by
  intro url path disk opened closed surveyed
  have hopened : Reachable (ofSettings ⟨[], none⟩) opened :=
    .event (.openDocument url "class B" 1) (.start ⟨[], none⟩)
  have hclosed : Reachable surveyed closed :=
    .event (.closeDocument url) (.reconcile disk () none hopened)
  exact reconcile_faithful hclosed disk () (some (.ofString "/w"))

end Workspace

end WorkspaceSession
