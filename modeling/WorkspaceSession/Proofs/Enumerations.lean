/-
The order of enumeration.

A system lists a directory in no particular order, and an editor its open documents as well. A walk
goes through the one and the survey of documents through the other, both write one session, and
both put their errors on one list. This file compares two reconciliations that differ in nothing but
these orders (`Disk.Reorders`, `Editor.Reorders`): they leave the same workspace and count the same,
and their errors are the same up to order.

What is found is found in another order, and that is all (`Survey.run_perm`). It could still make a
difference, as of two sources of one document the later one counts. But there are no two different
ones: every source that a survey finds is the fresh source of its document
(`Survey.fresh_of_mem_sources`), and so any order gives the same session
(`Session.insertAll_of_perm`). Libraries are sorted by name before they are searched, which forgets
the order of their directory.
-/
import Mathlib.Data.List.Perm.Basic
import WorkspaceSession.Proofs.SessionSizes
import WorkspaceSession.Proofs.Settlements

set_option autoImplicit false

namespace WorkspaceSession

/-! ## The same in another order -/

/-- Two listings of one directory: the same entries in some order, or the same refusal. -/
inductive SameListing : Except OsError (List DirEntry) → Except OsError (List DirEntry) → Prop
  /-- The directory is listed. -/
  | ok {entries entries' : List DirEntry} (perm : entries.Perm entries') :
      SameListing (.ok entries) (.ok entries')
  /-- The directory cannot be read. -/
  | error (e : OsError) : SameListing (.error e) (.error e)

/-- Two disks that differ only in the order in which they list directories. -/
structure Disk.Reorders (disk disk' : Disk Id) : Prop where
  /-- Relative paths are read from one directory. -/
  workingDirectory : disk.workingDirectory = disk'.workingDirectory
  /-- Paths lead to the same. -/
  kind? : disk.kind? = disk'.kind?
  /-- Paths name the same. -/
  ownKind : disk.ownKind = disk'.ownKind
  /-- Files hold the same. -/
  read : disk.read = disk'.read
  /-- Directories have the same entries. -/
  entries : ∀ path, SameListing (disk.entries path).run (disk'.entries path).run

/-- Two editors that differ only in the order in which they list documents. -/
structure Editor.Reorders (editor editor' : Editor Id) : Prop where
  /-- The same documents changed. -/
  takeChanged : editor.takeChanged.run.Perm editor'.takeChanged.run
  /-- The same documents are listed as open. -/
  openUrls : editor.openUrls.run.Perm editor'.openUrls.run
  /-- Buffers hold the same. -/
  text? : editor.text? = editor'.text?
  /-- Of the same documents it is said that they are open. -/
  isOpen : editor.isOpen = editor'.isOpen

/-! ## Sessions -/

/-- Of two permutations the search finds the same, if there is only one element to be found. -/
theorem find?_eq_of_perm {α : Type} {p : α → Bool} {l l' : List α} (hperm : l.Perm l')
    (hone : ∀ a ∈ l, ∀ b ∈ l, p a = true → p b = true → a = b) : l.find? p = l'.find? p := by
  cases hfound : l.find? p with
  | none =>
    rw [List.find?_eq_none] at hfound
    exact (List.find?_eq_none.mpr fun a ha => hfound a (hperm.mem_iff.mpr ha)).symm
  | some a =>
    have ha : a ∈ l := List.mem_of_find?_eq_some hfound
    have hpa : p a = true := List.find?_some hfound
    obtain ⟨b, hb⟩ : ∃ b, l'.find? p = some b := by
      rw [← Option.isSome_iff_exists, List.find?_isSome]
      exact ⟨a, hperm.mem_iff.mp ha, hpa⟩
    have hbl : b ∈ l := hperm.mem_iff.mpr (List.mem_of_find?_eq_some hb)
    rw [hb, hone a ha b hbl hpa (List.find?_some hb)]

namespace Session

/-- Ordered sessions with the same configuration and the same answers are the same. -/
theorem eq_of_get? {session session' : Session} (h : session.Ordered) (h' : session'.Ordered)
    (hconfig : session.config = session'.config)
    (hget : ∀ url, session.get? url = session'.get? url) : session = session' := by
  have hmem : ∀ s, s ∈ session.sources ↔ s ∈ session'.sources := by
    intro s
    have hfound : session.get? s.url = some s ↔ s ∈ session.sources ∧ s.url = s.url :=
      h.get?_eq_some_iff
    rw [hget, h'.get?_eq_some_iff] at hfound
    simpa using hfound.symm
  have hasymm : ∀ s t, s ∈ session.sources → t ∈ session'.sources →
      s.url.text < t.url.text → t.url.text < s.url.text → s = t :=
    fun _ _ _ _ hlt hgt => absurd hlt (not_lt.mpr hgt.le)
  have hperm := (List.perm_ext_iff_of_nodup h.urls_nodup.of_map h'.urls_nodup.of_map).mpr hmem
  obtain ⟨config, sources⟩ := session
  obtain ⟨config', sources'⟩ := session'
  exact congrArg₂ Session.mk hconfig (hperm.eq_of_pairwise hasymm h h')

/-- The order of additions makes no difference where no two different sources compete. -/
theorem insertAll_of_perm {session : Session} (hordered : session.Ordered)
    {sources sources' : List Source} (hperm : sources.Perm sources')
    (hone : ∀ s ∈ sources, ∀ t ∈ sources, s.url = t.url → s = t) :
    session.insertAll sources = session.insertAll sources' := by
  refine eq_of_get? (hordered.insertAll _) (hordered.insertAll _) (by simp) fun url => ?_
  have hreverse : sources.reverse.Perm sources'.reverse :=
    (sources.reverse_perm.trans hperm).trans sources'.reverse_perm.symm
  have hfound : sources.reverse.find? (fun s => s.url = url)
      = sources'.reverse.find? (fun s => s.url = url) := by
    refine find?_eq_of_perm hreverse fun s hs t ht hsUrl htUrl => ?_
    rw [decide_eq_true_eq] at hsUrl htUrl
    exact hone s (List.mem_reverse.mp hs) t (List.mem_reverse.mp ht) (hsUrl.trans htUrl.symm)
  rw [get?_insertAll, get?_insertAll, hfound]

end Session

section

variable {disk disk' : Disk Id} (hdisk : disk.Reorders disk')

include hdisk

theorem Disk.Reorders.isFile (path : Path) : disk.isFile path = disk'.isFile path := by
  rw [Disk.isFile, Disk.isFile, hdisk.kind?]

theorem Disk.Reorders.isDirectory (path : Path) :
    disk.isDirectory path = disk'.isDirectory path := by
  rw [Disk.isDirectory, Disk.isDirectory, hdisk.kind?]

/-! ## Libraries -/

namespace Classpath

theorem archivesAmong_of_reorders (paths : List Path) :
    archivesAmong disk paths = archivesAmong disk' paths := by
  induction paths with
  | nil => rfl
  | cons path rest ih =>
    rw [archivesAmong, archivesAmong, ih, leadsToArchive, leadsToArchive, hdisk.isFile]

omit hdisk in
theorem pairwise_mergeSort_names (names : List Bytes) :
    (names.mergeSort fun a b => decide (a ≤ b)).Pairwise fun a b => decide (a ≤ b) = true := by
  have htrans : ∀ a b c : Bytes, decide (a ≤ b) = true → decide (b ≤ c) = true →
      decide (a ≤ c) = true := by
    intro a b c hab hbc
    exact decide_eq_true (List.le_trans (of_decide_eq_true hab) (of_decide_eq_true hbc))
  have htotal : ∀ a b : Bytes, (decide (a ≤ b) || decide (b ≤ a)) = true := by
    intro a b
    rcases List.le_total a b with h | h
    · simp [h]
    · simp [h]
  exact List.pairwise_mergeSort htrans htotal names

omit hdisk in
/-- Names are sorted by what they are, so that it does not show in which order they came. -/
theorem mergeSort_eq_of_perm {names names' : List Bytes} (hperm : names.Perm names') :
    (names.mergeSort fun a b => decide (a ≤ b)) = names'.mergeSort fun a b => decide (a ≤ b) := by
  refine List.Perm.eq_of_pairwise ?_ (pairwise_mergeSort_names names)
    (pairwise_mergeSort_names names')
    (((List.mergeSort_perm names _).trans hperm).trans (List.mergeSort_perm names' _).symm)
  intro a b _ _ hab hba
  exact List.le_antisymm (of_decide_eq_true hab) (of_decide_eq_true hba)

omit hdisk in
theorem run_archivesOfDirectory (disk : Disk Id) (directory : Path) :
    (archivesOfDirectory disk directory).run
      = if (disk.isDirectory directory).run then
          match (disk.entries directory).run with
          | .error _ => []
          | .ok entries =>
            (archivesAmong disk (((entries.map DirEntry.name).mergeSort fun a b =>
              decide (a ≤ b)).map fun name => directory.join ⟨name⟩)).run
        else [] := by
  rw [archivesOfDirectory, Id.run_bind]
  split_ifs
  · rw [Id.run_bind]
    cases (disk.entries directory).run with
    | error e => rfl
    | ok entries => rfl
  · rfl

theorem archivesOfDirectory_of_reorders (directory : Path) :
    archivesOfDirectory disk directory = archivesOfDirectory disk' directory := by
  refine (run_archivesOfDirectory disk directory).trans
    (Eq.trans ?_ (run_archivesOfDirectory disk' directory).symm)
  rw [hdisk.isDirectory]
  have hlisting := hdisk.entries directory
  generalize (disk.entries directory).run = listing at hlisting ⊢
  generalize (disk'.entries directory).run = listing' at hlisting ⊢
  cases hlisting with
  | error e => rfl
  | ok hperm =>
    dsimp only
    rw [mergeSort_eq_of_perm (hperm.map DirEntry.name), archivesAmong_of_reorders hdisk]

theorem archivesOfEntries_of_reorders (entries : List String) :
    archivesOfEntries disk entries = archivesOfEntries disk' entries := by
  have hentry : ∀ entry, archivesOfEntry disk entry = archivesOfEntry disk' entry := by
    intro entry
    unfold archivesOfEntry
    simp only [archivesOfDirectory_of_reorders hdisk, archivesAmong_of_reorders hdisk]
  induction entries with
  | nil => rfl
  | cons entry rest ih => rw [archivesOfEntries, archivesOfEntries, hentry, ih]

theorem resolve_of_reorders (entries : List String) (libraryDirectory? : Option Path) :
    resolve disk entries libraryDirectory? = resolve disk' entries libraryDirectory? := by
  unfold resolve
  simp only [archivesOfDirectory_of_reorders hdisk, archivesOfEntries_of_reorders hdisk]

end Classpath

/-! ## Findings -/

namespace Survey

theorem meetings_perm (depth : Nat) (path : Path) (kind : NodeKind) :
    (meetings disk depth path kind).Perm (meetings disk' depth path kind) := by
  induction depth generalizing path kind with
  | zero => exact List.Perm.refl _
  | succ depth ih =>
    rw [meetings_succ, meetings_succ]
    refine List.Perm.cons _ ?_
    split_ifs
    · have hlisting := hdisk.entries path
      generalize (disk.entries path).run = listing at hlisting ⊢
      generalize (disk'.entries path).run = listing' at hlisting ⊢
      cases hlisting with
      | error e => exact List.Perm.refl _
      -- The entries come in another order, and what is below each of them does too.
      | ok hperm => exact hperm.flatMap fun entry _ => ih _ _
    · exact List.Perm.refl _

theorem rootMeetings_perm (root : Path) :
    (rootMeetings disk root).Perm (rootMeetings disk' root) := by
  have hentered : ∀ kind, entered disk root kind = entered disk' root kind := by
    intro kind
    rw [entered, entered, hdisk.isDirectory]
  rw [rootMeetings, rootMeetings, hdisk.kind?, hdisk.ownKind]
  cases (disk'.kind? root).run with
  | none => exact List.Perm.refl _
  | some target =>
    rcases (disk'.ownKind root).run with e | kind
    · exact List.Perm.refl _
    · dsimp only
      rw [hentered]
      exact meetings_perm hdisk maxDepth root _

variable {editor editor' : Editor Id} (heditor : editor.Reorders editor')
  {changed? changed'? : Option (List Url)} (habout : isAbout changed? = isAbout changed'?)
  (loader : Loader)

include heditor habout

theorem findFile_of_reorders (path : Path) (kind : NodeKind) :
    findFile disk editor changed? loader path kind
      = findFile disk' editor' changed'? loader path kind := by
  unfold findFile readSource isSourceFile
  rw [hdisk.isFile, hdisk.read, heditor.isOpen, habout]

omit hdisk in
theorem findDocument_of_reorders (root? : Option Path) (url : Url) :
    findDocument editor changed? root? loader url
      = findDocument editor' changed'? root? loader url := by
  unfold findDocument
  rw [heditor.text?, habout]

/-- **The same findings in another order.** -/
theorem run_perm (root? : Option Path) :
    (run disk editor changed? root? loader).run.Perm
      (run disk' editor' changed'? root? loader).run := by
  have hfiles : (inWorkspace disk editor changed? loader root?).run.Perm
      (inWorkspace disk' editor' changed'? loader root?).run := by
    cases root? with
    | none => exact List.Perm.refl _
    | some root =>
      have hfind := findFile_of_reorders hdisk heditor habout loader
      rw [inWorkspace, inWorkspace, run_files, run_files]
      simp only [hfind]
      exact (rootMeetings_perm hdisk root).flatMap_right _
  have hdocuments : (documents editor changed? root? loader).run.Perm
      (documents editor' changed'? root? loader).run := by
    have hfind := findDocument_of_reorders heditor habout loader root?
    rw [documents, documents]
    simp only [Id.run_bind, List.idRun_mapM, Id.run_pure, ← List.flatMap_def, hfind]
    exact heditor.openUrls.flatMap_right _
  unfold run
  exact hfiles.append hdocuments

end Survey

end

namespace Workspace

/-! ## Reconciliations -/

variable {disk disk' : Disk Id} {editor editor' : Editor Id}

/-- What two reconciliations start from, if their disks differ in order only. -/
theorem base_of_reorders (hdisks : disk.Reorders disk') (workspace : Workspace) :
    workspace.base disk = workspace.base disk' := by
  rw [base, base, newLoader, newLoader, Classpath.resolve_of_reorders hdisks]

theorem kept_of_reorders (hdisks : disk.Reorders disk')
    (habout : Survey.isAbout (some editor.takeChanged.run)
      = Survey.isAbout (some editor'.takeChanged.run)) (workspace : Workspace) :
    workspace.kept disk editor = workspace.kept disk' editor' := by
  have hcontains : editor.takeChanged.run.contains = editor'.takeChanged.run.contains := habout
  rw [kept, kept, base_of_reorders hdisks]
  unfold about
  cases workspace.session? with
  | none => rfl
  | some session =>
    rw [Option.map_some, Option.map_some, dropChanged, dropChanged, hcontains]

/-- **The order of enumeration makes no difference.** Two reconciliations of one workspace, on disks
that list directories in any two orders and with editors that list documents in any two orders,
leave the same workspace and report the same, but for the order of the errors. -/
theorem reconcile_anyOrder (hdisk : disk.Lawful) (hdisks : disk.Reorders disk')
    (heditor : editor.Consistent) (heditors : editor.Reorders editor') {workspace : Workspace}
    (hordered : ∀ session, workspace.session? = some session → session.Ordered)
    (root? : Option Path) :
    ∃ after summary summary',
      (workspace.reconcile disk editor root?).run = (after, summary)
        ∧ (workspace.reconcile disk' editor' root?).run = (after, summary')
        ∧ summary.fullBuild = summary'.fullBuild ∧ summary.removed = summary'.removed
        ∧ summary.added = summary'.added ∧ summary.errors.Perm summary'.errors := by
  have hchanged : Survey.isAbout (some editor.takeChanged.run)
      = Survey.isAbout (some editor'.takeChanged.run) := by
    funext url
    rw [Bool.eq_iff_iff]
    simp only [Survey.isAbout, List.contains_iff_mem]
    exact heditors.takeChanged.mem_iff
  have habout : Survey.isAbout (workspace.about editor.takeChanged.run)
      = Survey.isAbout (workspace.about editor'.takeChanged.run) := by
    unfold about
    cases workspace.session? with
    | none => rfl
    | some session => exact hchanged
  have hroot : rootPath disk root? = rootPath disk' root? := by
    unfold rootPath Disk.absolute
    rw [hdisks.workingDirectory]
  have hkept : workspace.kept disk editor = workspace.kept disk' editor' :=
    kept_of_reorders hdisks hchanged workspace
  have hfindings : (workspace.findings disk editor root?).Perm
      (workspace.findings disk' editor' root?) := by
    rw [findings, findings, base_of_reorders hdisks, hroot]
    exact Survey.run_perm hdisks heditors habout _ _
  have hbuilt : (workspace.built disk editor root?).Perm (workspace.built disk' editor' root?) :=
    hfindings.filterMap _
  have hsession : workspace.sessionAfter disk editor root?
      = workspace.sessionAfter disk' editor' root? := by
    rw [sessionAfter, sessionAfter, ← hkept]
    refine Session.insertAll_of_perm (workspace.ordered_kept disk editor hordered) hbuilt ?_
    intro s hs t ht hurl
    have hfresh := Survey.fresh_of_mem_sources hdisk heditor hs
    rw [hurl, Survey.fresh_of_mem_sources hdisk heditor ht] at hfresh
    exact (Option.some.inj hfresh).symm
  refine ⟨_, _, _, run_reconcile disk editor root? workspace,
    (run_reconcile disk' editor' root? workspace).trans (Prod.ext ?_ rfl), rfl,
    congrArg Prod.snd hkept, hbuilt.length_eq, hfindings.filterMap _⟩
  exact congrArg (fun session => { workspace with stage := .active session }) hsession.symm

/-- Two files and two documents without a location, in one order and in the other. -/
theorem reconcile_anyOrder_reversed :
    let root : Path := .ofString "/w"
    let disk : Disk Id := ((FileSystem.empty.writeFile (.ofString "/w/A.groovy") []).writeFile
      (.ofString "/w/B.groovy") []).atRest
    let reversed : Disk Id :=
      { disk with entries := fun path => (disk.entries path).run.map List.reverse }
    let buffers : Buffers :=
      (Buffers.empty.openDocument ⟨"untitled:1"⟩ "" 1).openDocument ⟨"untitled:2"⟩ "" 1
    let editor : Editor Id := buffers.atRest
    let backwards : Editor Id := { editor with openUrls := buffers.openUrls.reverse }
    ∃ after summary summary',
      ((ofSettings ⟨[], none⟩).reconcile disk editor (some root)).run = (after, summary)
        ∧ ((ofSettings ⟨[], none⟩).reconcile reversed backwards (some root)).run
            = (after, summary')
        ∧ summary.added = 2 ∧ summary'.added = 2
        ∧ summary.errors.Perm summary'.errors ∧ summary.errors ≠ summary'.errors := by
  intro root disk reversed buffers editor backwards
  have hdisk : disk.Lawful := FileSystem.lawful_atRest (by decide)
  have hdisks : disk.Reorders reversed := by
    refine ⟨rfl, rfl, rfl, rfl, fun path => ?_⟩
    change SameListing (disk.entries path).run ((disk.entries path).run.map List.reverse)
    cases (disk.entries path).run with
    | error e => exact .error e
    | ok entries => exact .ok entries.reverse_perm.symm
  have heditors : editor.Reorders backwards :=
    ⟨List.Perm.refl _, buffers.openUrls.reverse_perm.symm, rfl, rfl⟩
  have hordered : ∀ session, (ofSettings ⟨[], none⟩).session? = some session → session.Ordered :=
    fun _ h => nomatch h
  obtain ⟨after, summary, summary', hrun, hrun', -, -, hadded, herrors⟩ :=
    reconcile_anyOrder hdisk hdisks buffers.consistent_atRest heditors hordered (some root)
  have hfirst : (((ofSettings ⟨[], none⟩).reconcile disk editor (some root)).run.2.added,
      ((ofSettings ⟨[], none⟩).reconcile disk editor (some root)).run.2.errors)
        = (2, [.location ⟨⟨"untitled:1"⟩, none⟩, .location ⟨⟨"untitled:2"⟩, none⟩]) := by
    decide +kernel
  have hsecond : ((ofSettings ⟨[], none⟩).reconcile reversed backwards (some root)).run.2.errors
      = [.location ⟨⟨"untitled:2"⟩, none⟩, .location ⟨⟨"untitled:1"⟩, none⟩] := by
    decide +kernel
  rw [hrun] at hfirst
  rw [hrun'] at hsecond
  obtain ⟨htwo, hinOrder⟩ := Prod.mk.inj hfirst
  refine ⟨after, summary, summary', hrun, hrun', htwo, hadded ▸ htwo, herrors, ?_⟩
  rw [hinOrder, hsecond]
  decide

end Workspace

end WorkspaceSession
