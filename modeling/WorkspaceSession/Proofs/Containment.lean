/-
Nothing comes in from outside.

An open document belongs into a session if its location lies in the root by the normal forms of the
two. A normal form is not always what its path leads to, as it keeps every other climb above the
root, and a document can be named with any number of climbs: an escaped slash hides them from the
reader of the URL. But what a normal form keeps is compared like a name. So it can keep a document
out that lies inside (`Path.liesIn_iff_resolved`), and it never lets one in that lies outside.

The disk and the editor may answer as they like. What a reconciliation adds from a buffer lies in
its root, what was there before may lie anywhere, and so a session that has only seen roots in one
directory has nothing open from outside that directory (`Workspace.Within`).
-/
import WorkspaceSession.Proofs.LexicalResolution
import WorkspaceSession.Proofs.Lifetimes
import WorkspaceSession.Proofs.OpenDocuments

set_option autoImplicit false

namespace WorkspaceSession

/-! ## Locations -/

/-- The path that a URL names starts at the root. -/
theorem Url.isAbsolute_of_toFilePath? {url : Url} {path : Path}
    (h : url.toFilePath? = some path) : path.isAbsolute = true := by
  rw [toFilePath?] at h
  split_ifs at h with hlocal
  obtain ⟨rest, hslash⟩ := List.head?_eq_some_iff.mp hlocal.1
  have hdecoded : Percent.decode (Text.Utf8.encode url.path)
      = Path.separator :: Percent.decode (Text.Utf8.encode rest) := by
    rw [hslash]
    exact Percent.decode_cons (by decide) _
  rw [← Option.some.inj h, hdecoded, Path.isAbsolute]
  split_ifs
  · rfl
  · rfl

/-- A location was read off some URL, the document's own one or that of its file form. -/
theorem Location.exists_toFilePath?_of_ofUrl {url : Url} {location : Path}
    (h : ofUrl url = .ok location) : ∃ place : Url, place.toFilePath? = some location := by
  have hread : ∀ (place : Url) (cause? : Option BadForm),
      place.toFilePath?.elim (.error ⟨url, cause?⟩) .ok = (.ok location : Except Unknown Path) →
      place.toFilePath? = some location := by
    intro place cause? hplace
    cases hpath : place.toFilePath? with
    | none =>
      rw [hpath] at hplace
      exact nomatch hplace
    | some path =>
      rw [hpath] at hplace
      rw [Except.ok.inj hplace]
  cases hform : fileForm url with
  | ok place => exact ⟨place, hread place none ((ofUrl_of_fileForm_eq_ok hform).symm.trans h)⟩
  | error bad =>
    exact ⟨url, hread url (some bad) ((ofUrl_of_fileForm_eq_error hform).symm.trans h)⟩

theorem Location.isAbsolute_of_ofUrl {url : Url} {location : Path}
    (h : ofUrl url = .ok location) : location.isAbsolute = true := by
  obtain ⟨place, hplace⟩ := exists_toFilePath?_of_ofUrl h
  exact Url.isAbsolute_of_toFilePath? hplace

/-! ## Surveys -/

/-- A source is in a directory by what the two paths lead to, if it is one from a buffer. -/
def Source.Within (source : Source) (directory : Path) : Prop :=
  source.origin = .inMemory → directory.resolved <+: source.location.resolved

namespace Survey

variable {σ : Type} (disk : Disk (StateM σ)) (editor : Editor (StateM σ))
  (changed? : Option (List Url)) (loader : Loader)

theorem always_findDocument_within {directory : Path} (hdirectory : directory.isAbsolute = true)
    (url : Url) :
    Always (fun found => ∀ f ∈ found, ∀ s, f = .ok s → s.Within directory)
      (findDocument editor changed? (some directory) loader url) := by
  unfold findDocument
  split_ifs
  · cases hlocation : Location.ofUrl url with
    | error unknown => exact Always.pure (by simp)
    | ok location =>
      dsimp only
      split_ifs with hlies
      · refine Always.bind_any fun text? => ?_
        cases text? with
        | none => exact Always.pure (by simp)
        | some content =>
          refine Always.pure fun f hf => ?_
          rw [List.mem_singleton.mp hf]
          rintro s ⟨⟩ -
          have habsolute := Location.isAbsolute_of_ofUrl hlocation
          exact ((Path.liesIn_iff_resolved habsolute hdirectory).mp hlies).1
      · exact Always.pure (by simp)
  · exact Always.pure (by simp)

/-- **A survey lets no buffer in from outside.** -/
theorem always_run_within {directory : Path} (hdirectory : directory.isAbsolute = true) :
    Always (fun found => ∀ s ∈ sources found, s.Within directory)
      (run disk editor changed? (some directory) loader) := by
  have hfiles : Always (fun found => ∀ s ∈ sources found, s.Within directory)
      (files disk editor changed? loader directory) := by
    intro state s hs
    -- What was read from a file is from no buffer.
    cases always_files_read disk changed? loader editor.ensures_any.isOpen directory state s hs with
    | file bytes about isClosed named => exact fun horigin => nomatch horigin
    | document about located held => exact held.elim
  have hdocuments : Always (fun found => ∀ f ∈ found, ∀ s, f = .ok s → s.Within directory)
      (documents editor changed? (some directory) loader) := by
    refine Always.bind_any fun urls => ?_
    refine Always.bind (Always.mapM_flatten fun url _ => ?_) fun found hfound => Always.pure hfound
    exact always_findDocument_within editor changed? loader hdirectory url
  refine Always.bind hfiles fun inFiles hinFiles => ?_
  refine Always.bind hdocuments fun inDocuments hinDocuments => Always.pure fun s hs => ?_
  rcases List.mem_append.mp (mem_sources.mp hs) with h | h
  · exact hinFiles s (mem_sources.mpr h)
  · exact hinDocuments _ h s rfl

end Survey

/-! ## Reconciliations -/

/-- A disk reads a path as this absolute one, at any time. -/
def Disk.ReadsAs {σ : Type} (disk : Disk (StateM σ)) (path absolute : Path) : Prop :=
  Always (fun answer => answer = .ok absolute) (disk.absolute path)

theorem Disk.readsAs_self {σ : Type} (disk : Disk (StateM σ)) {path : Path}
    (h : path.isAbsolute = true) : disk.ReadsAs path path := by
  rw [ReadsAs, Disk.absolute, if_pos h]
  exact Always.pure rfl

namespace Workspace

section

variable {σ : Type} {disk : Disk (StateM σ)} (editor : Editor (StateM σ)) {root directory : Path}
  (hroot : disk.ReadsAs root directory) (hdirectory : directory.isAbsolute = true) (s : σ)

include hroot

theorem always_rootPath : Always (fun used => used = some directory) (rootPath disk (some root)) :=
  Always.bind hroot fun _ hanswer => hanswer ▸ Always.pure rfl

include hdirectory

/-- **A reconciliation lets no buffer in from outside.** Every source from a buffer lies in the
root, or is one that was there before and whose document is not pending. -/
theorem exists_session_within (workspace : Workspace) :
    ∃ session,
      ((workspace.reconcile disk editor (some root)).run s).1.1.session? = some session
        ∧ ∀ source ∈ session.sources, source.Within directory
          ∨ ∃ before, workspace.session? = some before ∧ source ∈ before.sources
            ∧ source.url ∉ (editor.takeChanged.run s).1 := by
  have hused := always_rootPath hroot
  have hrun : ∀ (changed? : Option (List Url)) (loader : Loader) (used : Option Path),
      used = some directory → Always (fun found => ∀ s ∈ Survey.sources found, s.Within directory)
        (Survey.run disk editor changed? used loader) := by
    rintro changed? loader _ rfl
    exact Survey.always_run_within disk editor changed? loader hdirectory
  cases hsession : workspace.session? with
  | none =>
    obtain ⟨findings, hresult, hwithin⟩ := reconcile_inactive_of disk editor hsession hused
      (fun classpath => hrun none ⟨.ofClasspath classpath⟩) s
    refine ⟨_, by rw [hresult]; rfl, fun source hsource => ?_⟩
    rcases Session.mem_sources_insertAll hsource with hmem | hmem
    · exact Or.inl (hwithin source hmem)
    · exact absurd hmem List.not_mem_nil
  | some before =>
    obtain ⟨findings, hresult, hwithin⟩ := reconcile_active_of disk editor
      (stage_of_session? hsession) hused (fun changed => hrun (some changed) before.loader) s
    refine ⟨_, by rw [hresult]; rfl, fun source hsource => ?_⟩
    rcases Session.mem_sources_insertAll hsource with hmem | hmem
    · exact Or.inl (hwithin source hmem)
    · obtain ⟨hmem, hkept⟩ := Session.mem_sources_eraseAll hmem
      refine Or.inr ⟨before, rfl, hmem, fun hpending => hkept ?_⟩
      exact List.mem_filter.mpr
        ⟨List.mem_map_of_mem hmem, List.contains_iff_mem.mpr hpending⟩

end

/-! ## Runs -/

/-- Nothing in the session is from a buffer outside a directory. -/
def Within (workspace : Workspace) (directory : Path) : Prop :=
  ∀ session, workspace.session? = some session → ∀ source ∈ session.sources,
    source.Within directory

end Workspace

/-- A step is no reconciliation, or one under a root in a directory. -/
def Step.RootedIn (directory : Path) : Step → Prop
  | .event _ => True
  | .reconcile disk _ root? _ => ∃ root used, root? = some root ∧ disk.ReadsAs root used
      ∧ used.isAbsolute = true ∧ directory.resolved <+: used.resolved

namespace Workspace

/-- One step under a root in a directory keeps everything else out. -/
theorem Within.step {workspace : Workspace} {directory : Path} (h : workspace.Within directory)
    {step : Step} (hstep : step.RootedIn directory) :
    (step.onWorkspace workspace).Within directory := by
  intro session hsession source hsource
  cases step with
  | event event =>
    rcases event.session?_eq_or_none workspace with heq | hnone
    · exact h session (heq.symm.trans hsession) source hsource
    · exact nomatch hnone.symm.trans hsession
  | reconcile disk editor root? s =>
    obtain ⟨root, used, rfl, hreads, habsolute, hin⟩ := hstep
    obtain ⟨session', hsession', hwithin⟩ :=
      exists_session_within editor hreads habsolute s workspace
    obtain rfl := Option.some.inj (hsession'.symm.trans hsession)
    rcases hwithin source hsource with hnew | ⟨before, hbefore, hmem, -⟩
    · exact fun horigin => hin.trans (hnew horigin)
    · exact h before hbefore source hmem

/-- A run whose roots are all in a directory keeps everything else out. -/
theorem within_after (settings : Settings) {directory : Path} {steps : List Step}
    (hsteps : ∀ step ∈ steps, step.RootedIn directory) :
    (after settings steps).Within directory := by
  induction steps using List.reverseRecOn with
  | nil => exact fun session hsession => nomatch hsession
  | append_singleton steps step ih =>
    rw [after_append_singleton]
    have hbefore := ih fun step hstep => hsteps step (List.mem_append_left _ hstep)
    exact hbefore.step (hsteps step (List.mem_append_right _ List.mem_cons_self))

/-- **Containment is sound.** An absolute path that lies in an absolute directory by the normal
forms leads into what the directory leads to. Hence a reconciliation under a root that is read as
this directory, whatever the disk and the editor answer, adds no source from a buffer whose location
leads elsewhere, however the URL of the document is written; and after a run whose roots all lead
into a directory, the session has no source from a buffer outside it. -/
theorem reconcile_contained :
    (∀ path directory : Path, path.isAbsolute = true → directory.isAbsolute = true →
      path.liesIn directory = true → directory.resolved <+: path.resolved)
    ∧ (∀ {σ : Type} (disk : Disk (StateM σ)) (editor : Editor (StateM σ)) (root directory : Path),
        disk.ReadsAs root directory → directory.isAbsolute = true →
        ∀ (workspace : Workspace) (s : σ), ∃ session,
          ((workspace.reconcile disk editor (some root)).run s).1.1.session? = some session
            ∧ ∀ source ∈ session.sources, source.origin = .inMemory →
              directory.resolved <+: source.location.resolved
              ∨ ∃ before, workspace.session? = some before ∧ source ∈ before.sources
                ∧ source.url ∉ (editor.takeChanged.run s).1)
    ∧ ∀ (settings : Settings) (directory : Path) (steps : List Step),
        (∀ step ∈ steps, step.RootedIn directory) →
        ∀ session, (after settings steps).session? = some session →
          ∀ source ∈ session.sources, source.origin = .inMemory →
            directory.resolved <+: source.location.resolved := by
  refine ⟨fun path directory hpath hdirectory hlies => ?_,
    fun disk editor root directory hreads hdirectory workspace s => ?_,
    fun settings directory steps hsteps => within_after settings hsteps⟩
  · exact ((Path.liesIn_iff_resolved hpath hdirectory).mp hlies).1
  · obtain ⟨session, hsession, hwithin⟩ :=
      exists_session_within editor hreads hdirectory s workspace
    refine ⟨session, hsession, fun source hsource horigin => ?_⟩
    exact (hwithin source hsource).imp_left fun h => h horigin

/-- Two open documents whose URLs go up behind escaped slashes, one within the root and one out of
it: the first one is in the session, and whatever is there from a buffer lies in the root. -/
theorem reconcile_contained_escaped :
    let root : Path := .ofString "/w"
    let inside : Url := ⟨"file:///w/x%2F..%2FA.groovy"⟩
    let outside : Url := ⟨"file:///w/..%2F..%2F..%2Fo%2FA.groovy"⟩
    let disk : Disk (StateM Unit) := FileSystem.empty.atRest
    let buffers : Buffers :=
      (Buffers.empty.openDocument inside "class A" 1).openDocument outside "class O" 1
    let step : Step := .reconcile disk buffers.atRest (some root) ()
    ∃ session, (after ⟨[], none⟩ [step]).session? = some session
      ∧ session.urls = [inside]
      ∧ ∀ source ∈ session.sources, source.origin = .inMemory →
        root.resolved <+: source.location.resolved := by
  intro root inside outside disk buffers step
  have hrooted : ∀ step' ∈ [step], step'.RootedIn root := by
    intro step' hstep'
    rw [List.mem_singleton.mp hstep']
    exact ⟨root, root, rfl, disk.readsAs_self (by decide), by decide, List.prefix_refl _⟩
  have hurls : ((after ⟨[], none⟩ [step]).session?).map Session.urls = some [inside] := by
    decide +kernel
  obtain ⟨session, hsession, hsessionUrls⟩ := Option.map_eq_some_iff.mp hurls
  obtain ⟨-, -, hrun⟩ := reconcile_contained
  exact ⟨session, hsession, hsessionUrls,
    hrun ⟨[], none⟩ root [step] hrooted session hsession⟩

end Workspace

end WorkspaceSession
