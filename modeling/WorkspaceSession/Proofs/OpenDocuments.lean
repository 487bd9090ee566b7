/-
Which open documents have a source.

An open document belongs into the session if it lies under the root, or if there is no root. But a
reconciliation looks only at the documents that it is about: all of them if it makes the session,
and otherwise those that changed since the last one, under whatever root that was. So whether an
open document has a source is decided by the last reconciliation that was about it and by the root
that this one used; later ones, under other roots or under none, do not reconsider it. The runs of
this file therefore carry that root for every document (`Traced`).

The disk has no say in it. It may answer as it likes, also in the middle of a walk: the files of
open documents are passed over, and the texts of buffers are not on the disk.
-/
import WorkspaceSession.Proofs.AtRest
import WorkspaceSession.Proofs.Origins
import WorkspaceSession.Proofs.Reconciling

set_option autoImplicit false

namespace WorkspaceSession

namespace Survey

/-! ## One survey -/

variable {σ : Type} (disk : Disk (StateM σ)) (changed? : Option (List Url)) (loader : Loader)

/-- The files give what was read, of documents that are said to be closed. -/
theorem always_files_read {editor : Editor (StateM σ)} {closed : Url → Prop}
    (hclosed : ∀ url, Always (fun answer => answer = false → closed url) (editor.isOpen url))
    (root : Path) :
    Always (fun found => ∀ s ∈ sources found, Found closed (fun _ _ => False) changed? loader s)
      (files disk editor changed? loader root) := by
  -- Files are found without a look at any buffer, so the editor may as well have no texts.
  have hmute : Editor.Ensures { editor with text? := fun _ => pure none } closed
      (fun _ _ => False) :=
    ⟨hclosed, fun _ => Always.pure fun _ h => nomatch h⟩
  intro s source hsource
  exact always_files disk hmute changed? loader root s _ (mem_sources.mp hsource) source rfl

/-- The files give sources of closed documents only. -/
theorem always_files_closed {editor : Editor (StateM σ)} {closed : Url → Prop}
    (hclosed : ∀ url, Always (fun answer => answer = false → closed url) (editor.isOpen url))
    (root : Path) :
    Always (fun found => ∀ s ∈ sources found, closed s.url)
      (files disk editor changed? loader root) := by
  intro s source hsource
  cases always_files_read disk changed? loader hclosed root s source hsource with
  | file bytes about isClosed named => exact isClosed
  | document about located held => exact held.elim

/-- **What a survey finds of an open document** is its buffer's source, if the survey is about it
and the document belongs under the root. -/
theorem always_find?_of_isOpen {buffers : Buffers} {url : Url} (hopen : buffers.isOpen url = true)
    (root? : Option Path) :
    Always (fun found => ((sources found).reverse.find? fun s => s.url = url)
        = if isAbout changed? url then documentSource? buffers.atRest root? loader url else none)
      (run disk buffers.atRest changed? root? loader) := by
  have hfiles : Always (fun found => ∀ s ∈ sources found, buffers.isOpen s.url = false)
      (inWorkspace disk buffers.atRest changed? loader root?) := by
    cases root? with
    | none => exact Always.pure fun _ h => absurd h List.not_mem_nil
    | some root =>
      have hquiet := buffers.ensures_atRest (σ := σ)
      exact always_files_closed disk changed? loader hquiet.isOpen root
  have hdocuments : Always (fun found => ((sources found).reverse.find? fun s => s.url = url)
        = if isAbout changed? url then documentSource? buffers.atRest root? loader url else none)
      (documents (m := StateM σ) buffers.atRest changed? root? loader) := by
    intro s
    -- No question about a buffer moves the state, so this part is the one over `Id`.
    rw [rests_documents (buffers.restsAt_atRest s) changed? loader root?]
    have hlisted : url ∈ (buffers.atRest : Editor Id).openUrls.run := Buffers.mem_openUrls.mpr hopen
    rw [find?_sources_documents]
    simp only [hlisted, true_and]
  unfold run
  refine Always.bind hfiles fun inFiles hclosed => ?_
  refine Always.bind hdocuments fun inDocuments hfound => Always.pure ?_
  have hnone : (sources inFiles).reverse.find? (fun s => s.url = url) = none := by
    rw [List.find?_eq_none]
    intro source hsource heq
    have hsource := hclosed source (List.mem_reverse.mp hsource)
    rw [decide_eq_true_eq.mp heq, hopen] at hsource
    exact nomatch hsource
  -- The documents come last, so the search from the end meets them first.
  rw [sources, List.filterMap_append, List.reverse_append, List.find?_append]
  exact (congrArg₂ Option.or hfound hnone).trans Option.or_none

/-- Where a located document stands with its buffer, only the root decides. -/
theorem documentSource?_of_text? {buffers : Buffers} {url : Url} {location : Path}
    {content : String} (htext : buffers.text? url = some content)
    (hlocation : Location.ofUrl url = .ok location) (root? : Option Path) :
    documentSource? buffers.atRest root? loader url
      = if root?.all location.liesIn then some (.ofBuffer url location content loader)
        else none := by
  have hanswer : ((buffers.atRest : Editor Id).text? url).run = some content := htext
  unfold documentSource?
  rw [hlocation]
  dsimp only
  rw [hanswer]
  rfl

/-- What an open document has is a matter of its buffer. -/
theorem documentSource?_congr {buffers buffers' : Buffers} {url : Url}
    (h : buffers.get? url = buffers'.get? url) (root? : Option Path) :
    documentSource? buffers.atRest root? loader url
      = documentSource? buffers'.atRest root? loader url := by
  have htext : ((buffers.atRest : Editor Id).text? url).run
      = ((buffers'.atRest : Editor Id).text? url).run := Buffers.text?_congr h
  unfold documentSource?
  rw [htext]

end Survey

namespace Workspace

/-! ## One reconciliation -/

variable {σ : Type} (disk : Disk (StateM σ)) (root? : Option Path) {workspace : Workspace}
  {buffers : Buffers}

/-- The root that a reconciliation works with. It is found after the session. -/
def usedRoot (workspace : Workspace) : StateM σ (Option Path) := do
  let _ ← sessionOrNew disk workspace
  rootPath disk root?

/-- A reconciliation is about a document if it makes the session or the document is pending. -/
def Surveys (workspace : Workspace) (buffers : Buffers) (url : Url) : Prop :=
  workspace.session? = none ∨ url ∈ buffers.changed

instance (workspace : Workspace) (buffers : Buffers) (url : Url) :
    Decidable (workspace.Surveys buffers url) :=
  inferInstanceAs (Decidable (_ ∨ _))

variable (buffers) in
/-- A full build gives every open document that belongs under the root its source. -/
theorem get?_reconcile_open_of_inactive (hsession : workspace.session? = none) (s : σ) :
    ∃ session,
      ((workspace.reconcile disk buffers.atRest root?).run s).1.1.session? = some session
        ∧ ∀ url, buffers.isOpen url = true →
          session.get? url = Survey.documentSource? buffers.atRest
            ((usedRoot disk root? workspace).run s).1 session.loader url := by
  let resolving : StateM σ Classpath :=
    Classpath.resolve disk workspace.settings.classpath workspace.settings.libraryDirectory?
  have hroot : ((usedRoot disk root? workspace).run s).1
      = ((rootPath disk root?).run (resolving.run s).2).1 := by
    rw [usedRoot, sessionOrNew_inactive hsession]
    rfl
  rw [hroot, reconcile_eq_of_inactive disk _ root? hsession]
  refine ⟨_, rfl, fun url hopen => ?_⟩
  have hfound := Survey.always_find?_of_isOpen disk none ⟨.ofClasspath (resolving.run s).1⟩ hopen
    ((rootPath disk root?).run (resolving.run s).2).1
    ((rootPath disk root?).run (resolving.run s).2).2
  rw [Session.get?_insertAll, Session.loader, Session.config_insertAll]
  exact (congrArg (Option.or · none) hfound).trans Option.or_none

variable (buffers) in
/-- An incremental reconciliation does the same for the pending ones and passes over the others. -/
theorem get?_reconcile_open_of_active {session : Session}
    (hsession : workspace.session? = some session) (s : σ) :
    ∃ session',
      ((workspace.reconcile disk buffers.atRest root?).run s).1.1.session? = some session'
        ∧ session'.loader = session.loader
        ∧ ∀ url, buffers.isOpen url = true →
          session'.get? url = if url ∈ buffers.changed then
              Survey.documentSource? buffers.atRest ((usedRoot disk root? workspace).run s).1
                session.loader url
            else session.get? url := by
  have hroot : usedRoot disk root? workspace = rootPath disk root? := by
    rw [usedRoot, sessionOrNew_active (stage_of_session? hsession)]
    rfl
  rw [hroot, reconcile_eq_of_active disk _ root? (stage_of_session? hsession)]
  refine ⟨_, rfl, ?_, fun url hopen => ?_⟩
  · rw [Session.loader, Session.config_insertAll, config_dropChanged]
    rfl
  · have hfound := Survey.always_find?_of_isOpen disk (some buffers.changed) session.loader hopen
      ((rootPath disk root?).run s).1 ((rootPath disk root?).run s).2
    rw [Session.get?_insertAll]
    refine (congrArg₂ Option.or hfound (get?_dropChanged session buffers.changed url)).trans ?_
    simp only [Survey.isAbout, List.contains_iff_mem]
    split_ifs
    · exact Option.or_none
    · exact Option.none_or

/-! ## Runs -/

/-- For every document, the root of the last reconciliation that was about it, after one more. -/
def rootsAfter (workspace : Workspace) (buffers : Buffers) (used? : Option Path)
    (roots : Url → Option Path) : Url → Option Path :=
  fun url => if workspace.Surveys buffers url then used? else roots url

/-- The workspaces and buffers that a run comes to, with the root of the last reconciliation about
each document. Every reconciliation may have its own root and its own disk, in any state. -/
inductive Traced : Workspace → Buffers → (Url → Option Path) → Prop
  /-- A new workspace. Its first reconciliation will be about all documents, so that it makes no
  difference what is kept of the time before. -/
  | start (settings : Settings) (roots : Url → Option Path) :
      Traced (.ofSettings settings) .empty roots
  /-- Something happens. -/
  | event {workspace : Workspace} {buffers : Buffers} {roots : Url → Option Path} (event : Event) :
      Traced workspace buffers roots →
      Traced (event.onWorkspace workspace) (event.onBuffers buffers) roots
  /-- A reconciliation takes the pending changes. -/
  | reconcile {workspace : Workspace} {buffers : Buffers} {roots : Url → Option Path} {σ : Type}
      (disk : Disk (StateM σ)) (s : σ) (root? : Option Path) :
      Traced workspace buffers roots →
      Traced ((workspace.reconcile disk buffers.atRest root?).run s).1.1 buffers.takeChanged.2
        (rootsAfter workspace buffers ((usedRoot disk root? workspace).run s).1 roots)

/-- Every open document that is not pending has what belongs under the root of the last
reconciliation about it. -/
def OpenAsSurveyed (workspace : Workspace) (buffers : Buffers) (roots : Url → Option Path) : Prop :=
  ∀ session, workspace.session? = some session → ∀ url, buffers.isOpen url = true →
    url ∉ buffers.changed →
      session.get? url = Survey.documentSource? buffers.atRest (roots url) session.loader url

theorem OpenAsSurveyed.event {roots : Url → Option Path}
    (h : workspace.OpenAsSurveyed buffers roots) (event : Event) :
    (event.onWorkspace workspace).OpenAsSurveyed (event.onBuffers buffers) roots := by
  intro session hsession url hopen hpending
  obtain ⟨hpending, hget⟩ := Event.get?_of_not_mem_changed hpending
  rw [Buffers.isOpen_congr hget] at hopen
  rcases event.session?_eq_or_none workspace with heq | hnone
  · rw [heq] at hsession
    rw [h session hsession url hopen hpending]
    exact Survey.documentSource?_congr session.loader hget.symm (roots url)
  · rw [hnone] at hsession
    exact nomatch hsession

/-- After a reconciliation this holds of the pending documents too. -/
theorem OpenAsSurveyed.reconcile {roots : Url → Option Path}
    (h : workspace.OpenAsSurveyed buffers roots) (s : σ) :
    ∃ session,
      ((workspace.reconcile disk buffers.atRest root?).run s).1.1.session? = some session
        ∧ ∀ url, buffers.isOpen url = true →
          session.get? url = Survey.documentSource? buffers.atRest
            (rootsAfter workspace buffers ((usedRoot disk root? workspace).run s).1 roots url)
            session.loader url := by
  cases hsession : workspace.session? with
  | none =>
    obtain ⟨session', hresult, hget⟩ :=
      get?_reconcile_open_of_inactive disk root? buffers hsession s
    refine ⟨session', hresult, fun url hopen => ?_⟩
    have hsurveys : workspace.Surveys buffers url := Or.inl hsession
    rw [hget url hopen, rootsAfter, if_pos hsurveys]
  | some session =>
    obtain ⟨session', hresult, hloader, hget⟩ :=
      get?_reconcile_open_of_active disk root? buffers hsession s
    refine ⟨session', hresult, fun url hopen => ?_⟩
    rw [hget url hopen, hloader, rootsAfter]
    by_cases hpending : url ∈ buffers.changed
    · have hsurveys : workspace.Surveys buffers url := Or.inr hpending
      rw [if_pos hpending, if_pos hsurveys]
    · -- Nothing looks at this document: it keeps what it had, and its root.
      have hpassed : ¬workspace.Surveys buffers url := by
        rw [Surveys, hsession]
        exact fun hsurveys => hsurveys.elim (fun h => nomatch h) hpending
      rw [if_neg hpending, if_neg hpassed, h session hsession url hopen hpending]

theorem Traced.openAsSurveyed {roots : Url → Option Path} (h : Traced workspace buffers roots) :
    workspace.OpenAsSurveyed buffers roots := by
  induction h with
  | start settings roots => exact fun session hsession => nomatch hsession
  | event event _ ih => exact ih.event event
  | @reconcile workspace buffers roots σ disk s root? _ ih =>
    obtain ⟨session, hsession, hget⟩ := ih.reconcile disk root? s
    intro session' hsession' url hopen _
    obtain rfl := Option.some.inj (hsession.symm.trans hsession')
    have hbuffer := buffers.get?_takeChanged url
    rw [Buffers.isOpen_congr hbuffer] at hopen
    rw [hget url hopen]
    exact Survey.documentSource?_congr session.loader hbuffer.symm _

/-- **Open documents.** Right after a reconciliation without a root, an open document that has a
location has its source, with the present text, exactly if this reconciliation was about it, or the
last one that was had no root or one under which the document lies. Otherwise it has none. -/
theorem reconcile_openDocuments {roots : Url → Option Path} (h : Traced workspace buffers roots)
    (s : σ) :
    ∃ session,
      ((workspace.reconcile disk buffers.atRest none).run s).1.1.session? = some session
        ∧ ∀ url location content, buffers.text? url = some content →
          Location.ofUrl url = .ok location →
            session.get? url
              = if workspace.Surveys buffers url ∨ (roots url).all location.liesIn then
                  some (.ofBuffer url location content session.loader)
                else none := by
  obtain ⟨session, hsession, hget⟩ := h.openAsSurveyed.reconcile disk none s
  refine ⟨session, hsession, fun url location content htext hlocation => ?_⟩
  rw [hget url (Buffers.isOpen_of_text? htext),
    Survey.documentSource?_of_text? session.loader htext hlocation, rootsAfter]
  have hused : ((usedRoot disk none workspace).run s).1 = none := rfl
  by_cases hsurveys : workspace.Surveys buffers url
  · rw [if_pos hsurveys, hused]
    simp [hsurveys]
  · rw [if_neg hsurveys]
    simp [hsurveys]

/-- A document outside the root that was left out is back as soon as it has been edited. -/
theorem reconcile_openDocuments_edited :
    let url : Url := ⟨"file:///o/A.groovy"⟩
    let disk : Disk (StateM Unit) := (FileSystem.empty.makeDirectory (.ofString "/w")).atRest
    let opened : Buffers := Buffers.empty.openDocument url "class A" 1
    let narrow : Workspace :=
      (((ofSettings ⟨[], none⟩).reconcile disk opened.atRest (some (.ofString "/w"))).run ()).1.1
    let edited : Buffers := opened.takeChanged.2.editDocument url 2 [⟨none, "class B"⟩]
    ∃ session,
      ((narrow.reconcile disk edited.atRest none).run ()).1.1.session? = some session
        ∧ session.get? url
          = some (.ofBuffer url (.ofString "/o/A.groovy") "class B" session.loader) := by
  intro url disk opened narrow edited
  have hopened : Traced (ofSettings ⟨[], none⟩) opened fun _ => none :=
    .event (.openDocument url "class A" 1) (.start ⟨[], none⟩ _)
  have hedited : Traced narrow edited _ := .event (.editDocument url 2 [⟨none, "class B"⟩])
    (.reconcile disk () (some (.ofString "/w")) hopened)
  obtain ⟨session, hsession, hget⟩ := reconcile_openDocuments disk hedited ()
  have htext : edited.text? url = some "class B" := by decide
  have hlocation : Location.ofUrl url = .ok (.ofString "/o/A.groovy") := by decide
  have hsurveys : narrow.Surveys edited url := Or.inr (by decide)
  exact ⟨session, hsession, (hget url _ _ htext hlocation).trans (if_pos (Or.inl hsurveys))⟩

/-- Without a root not every open document has a source: one outside the root of an earlier
reconciliation is left out, and stays out while it does not change. -/
theorem not_complete_of_left_out :
    ¬∀ {workspace : Workspace} {buffers : Buffers}, Reachable workspace buffers →
      ∀ {σ : Type} (disk : Disk (StateM σ)) (s : σ), ∃ session,
        ((workspace.reconcile disk buffers.atRest none).run s).1.1.session? = some session
          ∧ ∀ url location content, buffers.text? url = some content →
            Location.ofUrl url = .ok location →
              ∃ source ∈ session.sources, source.url = url ∧ source.origin = .inMemory
                ∧ source.content = content := by
  intro h
  let url : Url := ⟨"file:///o/A.groovy"⟩
  let disk : Disk (StateM Unit) := (FileSystem.empty.makeDirectory (.ofString "/w")).atRest
  let opened : Buffers := Buffers.empty.openDocument url "class A" 1
  have hopened : Reachable (ofSettings ⟨[], none⟩) opened :=
    .event (.openDocument url "class A" 1) (.start ⟨[], none⟩)
  have hnarrow := Reachable.reconcile disk () (some (.ofString "/w")) hopened
  obtain ⟨session, hsession, hcomplete⟩ := h hnarrow disk ()
  have htext : opened.takeChanged.2.text? url = some "class A" := by decide
  have hlocation : Location.ofUrl url = .ok (.ofString "/o/A.groovy") := by decide
  obtain ⟨source, hsource, -⟩ := hcomplete url _ _ htext hlocation
  have hempty : (((((ofSettings ⟨[], none⟩).reconcile disk opened.atRest
      (some (.ofString "/w"))).run ()).1.1.reconcile disk opened.takeChanged.2.atRest none).run
        ()).1.1.session?.map Session.sources = some [] := by
    decide +kernel
  rw [hsession] at hempty
  rw [Option.some.inj hempty] at hsource
  exact List.not_mem_nil hsource

end Workspace

end WorkspaceSession
