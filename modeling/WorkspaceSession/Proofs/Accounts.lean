/-
The account of a reconciliation.

A reconciliation reports how many sources it removed and how many it added, and why sources are
missing. This file says that the report is exact, with a disk and an editor that do not change
during the call, whatever fails in it: the counts are numbers of documents and add up to the size of
the session (`Summary.Counts`), and every document that the reconciliation is about ends in exactly
one of the ways there are (`Summary.Accounts`).

The counts are made at three places, in a removal in bulk and in the two parts of a survey. Nothing
that is added replaces anything: what the session had for these documents is gone before the first
addition, and the survey finds one source for each document at most. For the errors the survey is
read once more, for what it finds beside the sources.
-/
import WorkspaceSession.Proofs.SessionSizes
import WorkspaceSession.Proofs.Visits

set_option autoImplicit false

namespace WorkspaceSession

theorem Location.url_of_ofUrl_eq_error {url : Url} {unknown : Location.Unknown}
    (h : Location.ofUrl url = .error unknown) : unknown.url = url := by
  unfold Location.ofUrl at h
  dsimp only at h
  split at h
  · exact nomatch h
  · exact congrArg Location.Unknown.url (Except.error.inj h).symm

namespace Survey

/-! ## Errors -/

theorem mem_errors {findings : List Finding} {e : SurveyError} :
    e ∈ errors findings ↔ .error e ∈ findings := by
  simp only [errors, List.mem_filterMap]
  constructor
  · rintro ⟨finding, hmem, he⟩
    cases finding with
    | ok s => exact nomatch he
    | error e' => exact Option.some.inj he ▸ hmem
  · exact fun h => ⟨_, h, rfl⟩

variable {disk : Disk Id} {editor : Editor Id} {changed? : Option (List Url)} {root? : Option Path}
  {loader : Loader}

/-- What can be wrong at a place: it is the source file of a closed document that the survey is
about, and it cannot be read. -/
theorem error_mem_findFile {path : Path} {kind : NodeKind} {e : SurveyError} :
    .error e ∈ (findFile disk editor changed? loader path kind).run
      ↔ (isSourceFile disk path kind).run = true ∧ ∃ url cause, Url.ofFilePath? path = some url
        ∧ (editor.isOpen url).run = false ∧ isAbout changed? url = true
        ∧ (disk.read path).run = .error cause ∧ e = .read path cause := by
  rw [findFile, Id.run_bind]
  by_cases hsource : (isSourceFile disk path kind).run = true
  · rw [if_pos hsource]
    cases hurl : Url.ofFilePath? path with
    | none => simp
    | some url =>
      dsimp only
      rw [run_readSource]
      split_ifs with hguard
      · cases hread : (disk.read path).run with
        | ok bytes => simp
        | error cause => simp [hsource, hguard]
      · constructor
        · exact fun h => absurd h List.not_mem_nil
        · rintro ⟨-, url', cause, heq, hclosed, habout, -⟩
          obtain rfl := Option.some.inj heq
          exact absurd ⟨hclosed, habout⟩ hguard
  · rw [if_neg hsource]
    simp [hsource]

/-- What can be wrong with an open document: the survey is about it, and it has no location. -/
theorem error_mem_findDocument {url : Url} {e : SurveyError} :
    .error e ∈ (findDocument editor changed? root? loader url).run
      ↔ isAbout changed? url = true ∧ ∃ unknown, Location.ofUrl url = .error unknown
        ∧ e = .location unknown := by
  rw [findDocument]
  by_cases habout : isAbout changed? url = true
  · rw [if_pos habout]
    cases hlocation : Location.ofUrl url with
    | error unknown => simp [habout]
    | ok location =>
      dsimp only
      split_ifs
      · rw [Id.run_bind]
        cases (editor.text? url).run with
        | none => simp
        | some content => simp
      · simp
  · rw [if_neg habout]
    simp [habout]

theorem mem_sourceFiles_iff {root path : Path} :
    path ∈ sourceFiles disk root
      ↔ ∃ kind, .place path kind ∈ rootMeetings disk root
        ∧ (isSourceFile disk path kind).run = true := by
  rw [sourceFiles, List.mem_flatMap]
  constructor
  · rintro ⟨meeting, hmeeting, hpath⟩
    cases meeting with
    | refusal p e => exact absurd hpath List.not_mem_nil
    | place p kind =>
      dsimp only at hpath
      split_ifs at hpath with hsource
      · obtain rfl := List.mem_singleton.mp hpath
        exact ⟨kind, hmeeting, hsource⟩
      · exact absurd hpath List.not_mem_nil
  · rintro ⟨kind, hmeeting, hsource⟩
    refine ⟨_, hmeeting, ?_⟩
    dsimp only
    rw [if_pos hsource]
    exact List.mem_singleton_self path

/-- The errors that a survey finds in the files: directories that cannot be listed, and source files
that cannot be read. -/
theorem error_mem_files {root : Path} {e : SurveyError} :
    .error e ∈ (files disk editor changed? loader root).run
      ↔ (∃ path cause, .refusal path cause ∈ rootMeetings disk root ∧ e = .walk root path cause)
        ∨ ∃ path url cause, path ∈ sourceFiles disk root ∧ Url.ofFilePath? path = some url
          ∧ (editor.isOpen url).run = false ∧ isAbout changed? url = true
          ∧ (disk.read path).run = .error cause ∧ e = .read path cause := by
  rw [run_files, List.mem_flatMap]
  constructor
  · rintro ⟨meeting, hmeeting, he⟩
    cases meeting with
    | refusal path cause =>
      exact Or.inl ⟨path, cause, hmeeting, Except.error.inj (List.mem_singleton.mp he)⟩
    | place path kind =>
      obtain ⟨hsource, url, cause, hrest⟩ := error_mem_findFile.mp he
      exact Or.inr ⟨path, url, cause, mem_sourceFiles_iff.mpr ⟨kind, hmeeting, hsource⟩, hrest⟩
  · rintro (⟨path, cause, hmeeting, rfl⟩ | ⟨path, url, cause, hpath, hrest⟩)
    · exact ⟨_, hmeeting, List.mem_singleton_self _⟩
    · obtain ⟨kind, hmeeting, hsource⟩ := mem_sourceFiles_iff.mp hpath
      exact ⟨_, hmeeting, error_mem_findFile.mpr ⟨hsource, url, cause, hrest⟩⟩

theorem error_mem_documents {e : SurveyError} :
    .error e ∈ (documents editor changed? root? loader).run
      ↔ ∃ url ∈ editor.openUrls.run, isAbout changed? url = true
        ∧ ∃ unknown, Location.ofUrl url = .error unknown ∧ e = .location unknown := by
  rw [documents, Id.run_bind, Id.run_bind, List.idRun_mapM, Id.run_pure, ← List.flatMap_def,
    List.mem_flatMap]
  simp only [error_mem_findDocument]

/-- A survey misses the locations of those open documents that have none. -/
theorem location_mem_errors_run {unknown : Location.Unknown} :
    .location unknown ∈ errors (run disk editor changed? root? loader).run
      ↔ unknown.url ∈ editor.openUrls.run ∧ isAbout changed? unknown.url = true
        ∧ Location.ofUrl unknown.url = .error unknown := by
  rw [mem_errors, run_run, List.mem_append, error_mem_documents]
  have hfiles :
      .error (.location unknown) ∉ (inWorkspace disk editor changed? loader root?).run := by
    cases root? with
    | none => exact List.not_mem_nil
    | some root =>
      change .error (.location unknown) ∉ (files disk editor changed? loader root).run
      rw [error_mem_files]
      simp
  constructor
  · intro h
    obtain ⟨url, hurl, habout, unknown', hlocation, heq⟩ := h.resolve_left hfiles
    obtain rfl := SurveyError.location.inj heq
    rw [Location.url_of_ofUrl_eq_error hlocation]
    exact ⟨hurl, habout, hlocation⟩
  · rintro ⟨hurl, habout, hlocation⟩
    exact Or.inr ⟨unknown.url, hurl, habout, unknown, hlocation, rfl⟩

/-- A survey misses the contents of those source files that cannot be read. -/
theorem read_mem_errors_run {path : Path} {cause : OsError} :
    .read path cause ∈ errors (run disk editor changed? root? loader).run
      ↔ ∃ root url, root? = some root ∧ path ∈ sourceFiles disk root
        ∧ Url.ofFilePath? path = some url ∧ (editor.isOpen url).run = false
        ∧ isAbout changed? url = true ∧ (disk.read path).run = .error cause := by
  rw [mem_errors, run_run, List.mem_append, error_mem_documents]
  have hfiles : .error (.read path cause) ∈ (inWorkspace disk editor changed? loader root?).run
      ↔ ∃ root, root? = some root
        ∧ .error (.read path cause) ∈ (files disk editor changed? loader root).run := by
    cases root? with
    | none => simp [inWorkspace]
    | some root => simp [inWorkspace]
  rw [hfiles]
  simp only [error_mem_files]
  constructor
  · rintro (⟨root, hroot, h⟩ | ⟨url, -, -, unknown, -, heq⟩)
    · rcases h with ⟨p, e, -, heq⟩ | ⟨p, url, e, hp, hurl, hclosed, habout, hread, heq⟩
      · exact nomatch heq
      · obtain ⟨rfl, rfl⟩ := SurveyError.read.inj heq
        exact ⟨root, url, hroot, hp, hurl, hclosed, habout, hread⟩
    · exact nomatch heq
  · rintro ⟨root, url, hroot, hp, hurl, hclosed, habout, hread⟩
    exact Or.inl ⟨root, hroot, Or.inr ⟨path, url, cause, hp, hurl, hclosed, habout, hread, rfl⟩⟩

/-- A survey finds no source that it is not about. -/
theorem isAbout_of_mem_sources (heditor : editor.Consistent) {s : Source}
    (hs : s ∈ sources (run disk editor changed? root? loader).run) :
    isAbout changed? s.url = true := by
  by_contra habout
  have hfound := find?_sources_run disk changed? root? loader heditor s.url
  rw [if_neg habout, List.find?_eq_none] at hfound
  exact hfound s (List.mem_reverse.mpr hs) (decide_eq_true rfl)

theorem documentSource?_of_unlocated {url : Url} {unknown : Location.Unknown}
    (hunknown : Location.ofUrl url = .error unknown) :
    documentSource? editor root? loader url = none := by
  unfold documentSource?
  rw [hunknown]

/-- What the disk contributes for the document of a source file is the content of that file. -/
theorem contribution_of_sourceFile (hdisk : disk.Lawful) {root path : Path} {url : Url}
    (hpath : SourceFile disk root path) (hurl : Url.ofFilePath? path = some url) :
    contribution disk root url = (disk.read path).run.toOption.map fun bytes => (path, bytes) := by
  cases hread : (disk.read path).run with
  | ok bytes => exact (contribution_eq_some_iff hdisk).mpr ⟨hpath, hurl, hread⟩
  | error cause =>
    refine Option.eq_none_iff_forall_not_mem.mpr ?_
    rintro ⟨p, bytes⟩ hcontributed
    obtain ⟨hp, hpUrl, hpRead⟩ := (contribution_eq_some_iff hdisk).mp hcontributed
    obtain rfl := hp.unique hdisk hpath hpUrl hurl
    exact nomatch hread.symm.trans hpRead

end Survey

/-! ## Exact accounts -/

/-- Exactly one of three. -/
def ExactlyOne (p q r : Prop) : Prop :=
  (p ∧ ¬q ∧ ¬r) ∨ (¬p ∧ q ∧ ¬r) ∨ (¬p ∧ ¬q ∧ r)

/-- The counts of a reconciliation that is about the documents in `wanted`. It starts from the
session `before`, keeps `kept` of it, adds the sources `built` in this order and leaves `after`. -/
structure Summary.Counts (summary : Summary) (wanted : Url → Prop) [DecidablePred wanted]
    (before kept : Session) (built : List Source) (after : Session) : Prop where
  /-- Removed is what the documents that it is about had before. -/
  removed : summary.removed = (before.urls.filter fun url => wanted url).length
  /-- Added is what is built. -/
  added : summary.added = built.length
  /-- What is built are the sources of different documents. -/
  distinct : (built.map Source.url).Nodup
  /-- They are those documents that it is about and that have a source afterwards. -/
  documents : ∀ url, url ∈ built.map Source.url ↔ wanted url ∧ url ∈ after.urls
  /-- One source is added after the other. -/
  settled : after = kept.insertAll built
  /-- No addition replaces a source. -/
  fresh : ∀ first source rest, built = first ++ source :: rest →
    ((kept.insertAll first).insert source).2 = none
  /-- The session grows by what is added and shrinks by what is removed. -/
  size : after.size = before.size - summary.removed + summary.added

/-- What becomes of the documents in `wanted`, which a reconciliation under the root `root?` is
about, in the session `after`. -/
structure Summary.Accounts (summary : Summary) (disk : Disk Id) (buffers : Buffers)
    (root? : Option Path) (wanted : Url → Prop) (after : Session) : Prop where
  /-- A document that is reported to have no location has no source. -/
  unlocated : ∀ unknown, .location unknown ∈ summary.errors → after.get? unknown.url = none
  /-- A file that is reported to be unreadable is one of a document, and this has no source. -/
  unread : ∀ path cause, .read path cause ∈ summary.errors →
    ∃ url, Url.ofFilePath? path = some url ∧ after.get? url = none
  /-- An open document ends with a source, with no location, or outside the root. -/
  document : ∀ url, wanted url → buffers.isOpen url = true →
    ExactlyOne (after.contains url = true)
      (∃ cause?, .location ⟨url, cause?⟩ ∈ summary.errors)
      (∃ location root, Location.ofUrl url = .ok location ∧ root? = some root
        ∧ location.liesIn root = false)
  /-- A source file of a closed document that the walk comes to ends with a source or unread. -/
  file : ∀ root path url, root? = some root → path ∈ Survey.sourceFiles disk root →
    Url.ofFilePath? path = some url → wanted url → buffers.isOpen url = false →
    Xor (after.contains url = true) (∃ cause, .read path cause ∈ summary.errors)

namespace Workspace

variable {disk : Disk Id} {buffers : Buffers} {workspace : Workspace}

/-- What is kept has no source of a document that the reconciliation is about. -/
theorem not_mem_urls_kept {url : Url} (hwanted : workspace.Surveys buffers url) :
    url ∉ (workspace.kept disk buffers.atRest).1.urls := by
  rw [Session.mem_urls_iff, get?_kept, if_pos (isAbout_iff_surveys.mpr hwanted)]
  exact fun ⟨_, h⟩ => nomatch h

/-- What a reconciliation removes and what it keeps. -/
theorem count_kept (disk : Disk Id) (buffers : Buffers)
    (hordered : ∀ session, workspace.session? = some session → session.Ordered) :
    (workspace.kept disk buffers.atRest).2
        = ((workspace.base disk).urls.filter fun url => workspace.Surveys buffers url).length
      ∧ (workspace.kept disk buffers.atRest).1.size + (workspace.kept disk buffers.atRest).2
        = (workspace.base disk).size := by
  unfold kept about
  cases hsession : workspace.session? with
  | none =>
    have hbase : (workspace.base disk).urls = [] := by rw [base, hsession]; rfl
    rw [hbase]
    exact ⟨rfl, Nat.add_zero _⟩
  | some session =>
    have hbase : workspace.base disk = session := by rw [base, hsession]; rfl
    have hwanted : session.urls.filter (fun url => workspace.Surveys buffers url)
        = session.urls.filter buffers.changed.contains := by
      refine List.filter_congr fun url _ => ?_
      rw [Bool.eq_iff_iff, decide_eq_true_eq, List.contains_iff_mem, Surveys, hsession]
      simp
    have hsession := hordered session hsession
    rw [hbase, hwanted]
    exact ⟨hsession.count_eraseAll (hsession.urls_nodup.filter _)
      fun url hurl => List.mem_of_mem_filter hurl, hsession.size_eraseAll _⟩

/-- The documents of what is built are those that the reconciliation is about and that have a source
afterwards. -/
theorem mem_urls_built (root? : Option Path) {url : Url} :
    url ∈ (workspace.built disk buffers.atRest root?).map Source.url
      ↔ workspace.Surveys buffers url
        ∧ url ∈ (workspace.sessionAfter disk buffers.atRest root?).urls := by
  constructor
  · intro h
    obtain ⟨s, hs, rfl⟩ := List.mem_map.mp h
    have habout := Survey.isAbout_of_mem_sources buffers.consistent_atRest hs
    exact ⟨isAbout_iff_surveys.mp habout, Session.mem_urls_insertAll.mpr (Or.inl h)⟩
  · rintro ⟨hwanted, h⟩
    exact (Session.mem_urls_insertAll.mp h).resolve_right (not_mem_urls_kept hwanted)

/-- The counts of a reconciliation are exact. -/
theorem counts_reconcile (hdisk : disk.Lawful) (hlists : disk.ListsOnce)
    (hopen : buffers.openUrls.Nodup)
    (hordered : ∀ session, workspace.session? = some session → session.Ordered)
    (root? : Option Path) :
    (workspace.reconcile disk buffers.atRest root?).run.2.Counts (workspace.Surveys buffers)
      (workspace.base disk) (workspace.kept disk buffers.atRest).1
      (workspace.built disk buffers.atRest root?)
      (workspace.sessionAfter disk buffers.atRest root?) := by
  obtain ⟨hremoved, hkept⟩ := count_kept disk buffers hordered
  have hdistinct : ((workspace.built disk buffers.atRest root?).map Source.url).Nodup :=
    Survey.nodup_urls_sources_run hdisk hlists buffers.consistent_atRest hopen _ _ _
  have hnew : ∀ s ∈ workspace.built disk buffers.atRest root?,
      s.url ∉ (workspace.kept disk buffers.atRest).1.urls := fun s hs =>
    not_mem_urls_kept ((mem_urls_built root?).mp (List.mem_map_of_mem hs)).1
  rw [run_reconcile]
  refine ⟨hremoved, rfl, hdistinct, fun url => mem_urls_built root?, rfl, ?_, ?_⟩
  · intro first source rest hsplit
    have hsource : source ∈ workspace.built disk buffers.atRest root? := by
      rw [hsplit]
      exact List.mem_append_right _ List.mem_cons_self
    exact Session.insert_insertAll_eq_none (hsplit ▸ hdistinct) (hnew source hsource)
  · rw [sessionAfter, Session.size_insertAll hdistinct hnew]
    dsimp only [settled]
    exact congrArg (· + _) (Nat.eq_sub_of_add_eq hkept)

/-- What an open document that the reconciliation is about has afterwards. -/
theorem get?_sessionAfter_of_isOpen (root? : Option Path) {url : Url}
    (hwanted : workspace.Surveys buffers url) (hopen : buffers.isOpen url = true) :
    (workspace.sessionAfter disk buffers.atRest root?).get? url
      = Survey.documentSource? buffers.atRest (rootPath disk root?).run
          (workspace.base disk).loader url := by
  rw [get?_sessionAfter_atRest, if_pos hwanted, Survey.fresh_of_isOpen hopen]

/-- What the document of a source file has afterwards, if it is closed and the reconciliation is
about it. -/
theorem get?_sessionAfter_of_sourceFile (hdisk : disk.Lawful) {root? : Option Path}
    {root path : Path} (hroot : (rootPath disk root?).run = some root)
    (hpath : SourceFile disk root path) {url : Url} (hurl : Url.ofFilePath? path = some url)
    (hwanted : workspace.Surveys buffers url) (hclosed : buffers.isOpen url = false) :
    (workspace.sessionAfter disk buffers.atRest root?).get? url
      = (disk.read path).run.toOption.map fun bytes =>
          .ofDisk url path bytes (workspace.base disk).loader := by
  rw [get?_sessionAfter_atRest, if_pos hwanted, Survey.fresh_of_isClosed hclosed, hroot,
    Option.bind_some, Survey.contribution_of_sourceFile hdisk hpath hurl, Option.map_map]
  rfl

theorem location_mem_errors_reconcile (disk : Disk Id) (root? : Option Path)
    {unknown : Location.Unknown} :
    .location unknown ∈ (workspace.reconcile disk buffers.atRest root?).run.2.errors
      ↔ buffers.isOpen unknown.url = true ∧ workspace.Surveys buffers unknown.url
        ∧ Location.ofUrl unknown.url = .error unknown := by
  rw [run_reconcile, settled, findings, Survey.location_mem_errors_run, isAbout_iff_surveys]
  exact and_congr_left' Buffers.mem_openUrls

theorem read_mem_errors_reconcile (root? : Option Path) {path : Path} {cause : OsError} :
    .read path cause ∈ (workspace.reconcile disk buffers.atRest root?).run.2.errors
      ↔ ∃ root url, (rootPath disk root?).run = some root ∧ path ∈ Survey.sourceFiles disk root
        ∧ Url.ofFilePath? path = some url ∧ buffers.isOpen url = false
        ∧ workspace.Surveys buffers url ∧ (disk.read path).run = .error cause := by
  rw [run_reconcile, settled, findings, Survey.read_mem_errors_run]
  simp only [isAbout_iff_surveys]
  rfl

/-- The errors of a reconciliation name the documents that have no source, and each of those has its
reason. -/
theorem accounts_reconcile (hdisk : disk.Lawful) (buffers : Buffers) (workspace : Workspace)
    (root? : Option Path) :
    (workspace.reconcile disk buffers.atRest root?).run.2.Accounts disk buffers
      (rootPath disk root?).run (workspace.Surveys buffers)
      (workspace.sessionAfter disk buffers.atRest root?) where
  unlocated := by
    intro unknown herror
    obtain ⟨hopen, hwanted, hunknown⟩ := (location_mem_errors_reconcile disk root?).mp herror
    exact (get?_sessionAfter_of_isOpen root? hwanted hopen).trans
      (Survey.documentSource?_of_unlocated hunknown)
  unread := by
    intro path cause herror
    obtain ⟨root, url, hroot, hpath, hurl, hclosed, hwanted, hcause⟩ :=
      (read_mem_errors_reconcile root?).mp herror
    have hsource := Survey.sourceFile_of_mem_sourceFiles hpath
    refine ⟨url, hurl, ?_⟩
    rw [get?_sessionAfter_of_sourceFile hdisk hroot hsource hurl hwanted hclosed, hcause]
    rfl
  document := by
    intro url hwanted hopen
    rw [Session.contains, get?_sessionAfter_of_isOpen root? hwanted hopen]
    cases hplace : Location.ofUrl url with
    | error unknown =>
      obtain rfl := Location.url_of_ofUrl_eq_error hplace
      have hreported := (location_mem_errors_reconcile disk root?).mpr ⟨hopen, hwanted, hplace⟩
      refine Or.inr (Or.inl ⟨?_, ⟨unknown.cause?, hreported⟩, ?_⟩)
      · rw [Survey.documentSource?_of_unlocated hplace]
        exact Bool.false_ne_true
      · rintro ⟨location, root, hlocated, -⟩
        cases hlocated
    | ok location =>
      have hunreported : ¬∃ cause?, SurveyError.location ⟨url, cause?⟩
          ∈ (workspace.reconcile disk buffers.atRest root?).run.2.errors := by
        rintro ⟨cause?, herror⟩
        obtain ⟨-, -, hunknown⟩ := (location_mem_errors_reconcile disk root?).mp herror
        cases hplace.symm.trans hunknown
      obtain ⟨content, htext⟩ := Buffers.exists_text?_of_isOpen hopen
      rw [Survey.documentSource?_of_text? _ htext hplace]
      by_cases hunder : (rootPath disk root?).run.all location.liesIn = true
      · refine Or.inl ⟨by rw [if_pos hunder]; rfl, hunreported, ?_⟩
        rintro ⟨location', root, hlocated, hroot, houtside⟩
        obtain rfl := Except.ok.inj hlocated
        rw [hroot, Option.all_some, houtside] at hunder
        cases hunder
      · refine Or.inr (Or.inr ⟨by rw [if_neg hunder]; exact Bool.false_ne_true, hunreported, ?_⟩)
        cases hroot : (rootPath disk root?).run with
        | none => exact absurd (by rw [hroot]; rfl) hunder
        | some root =>
          rw [hroot, Option.all_some, Bool.not_eq_true] at hunder
          exact ⟨location, root, rfl, rfl, hunder⟩
  file := by
    intro root path url hroot hpath hurl hwanted hclosed
    have hsource := Survey.sourceFile_of_mem_sourceFiles hpath
    rw [Session.contains, get?_sessionAfter_of_sourceFile hdisk hroot hsource hurl hwanted hclosed]
    cases hanswer : (disk.read path).run with
    | ok bytes =>
      refine Or.inl ⟨rfl, ?_⟩
      rintro ⟨cause, herror⟩
      obtain ⟨-, -, -, -, -, -, -, hcause⟩ := (read_mem_errors_reconcile root?).mp herror
      cases hanswer.symm.trans hcause
    | error cause =>
      have hreported := (read_mem_errors_reconcile root?).mpr
        ⟨root, url, hroot, hpath, hurl, hclosed, hwanted, hanswer⟩
      exact Or.inr ⟨⟨cause, hreported⟩, Bool.false_ne_true⟩

/-- **The report is exact.** A reconciliation with a disk and an editor that do not change during
the call leaves a session and a summary. Nothing is removed in a full build, and otherwise the
sources of the reported documents; what is added are the sources of different documents, none of
which had one any more; the size of the session is accounted for. Every document that an error names
has no source, and every document that the reconciliation is about ends in exactly one way. -/
theorem reconcile_account (hdisk : disk.Lawful) (hlists : disk.ListsOnce)
    (hopen : buffers.openUrls.Nodup)
    (hordered : ∀ session, workspace.session? = some session → session.Ordered)
    (root? : Option Path) :
    ∃ after summary,
      (workspace.reconcile disk buffers.atRest root?).run
          = ({ workspace with stage := .active after }, summary)
        ∧ summary.fullBuild = workspace.session?.isNone
        ∧ (workspace.session? = none → summary.removed = 0)
        ∧ (∀ session, workspace.session? = some session →
            summary.removed = (session.urls.filter fun url => url ∈ buffers.changed).length)
        ∧ summary.Counts (workspace.Surveys buffers) (workspace.base disk)
            (workspace.kept disk buffers.atRest).1 (workspace.built disk buffers.atRest root?) after
        ∧ summary.Accounts disk buffers (rootPath disk root?).run (workspace.Surveys buffers)
            after := by
  have hcounts := counts_reconcile hdisk hlists hopen hordered root?
  have haccounts := accounts_reconcile hdisk buffers workspace root?
  have hrun := run_reconcile disk buffers.atRest root? workspace
  rw [hrun] at hcounts haccounts
  refine ⟨_, _, hrun, rfl, ?_, ?_, hcounts, haccounts⟩
  · intro hnone
    refine hcounts.removed.trans ?_
    rw [base, hnone]
    rfl
  · intro session hsession
    have hwanted : (fun url => decide (workspace.Surveys buffers url))
        = fun url => decide (url ∈ buffers.changed) := by
      funext url
      rw [decide_eq_decide, Surveys, hsession]
      simp
    refine hcounts.removed.trans ?_
    rw [base, hsession, hwanted]
    rfl

/-- A file that is gone, a new one, one that cannot be read, an open document without a location and
one outside the root, all reported together. -/
theorem reconcile_account_mixed :
    let gone : Url := ⟨"file:///w/Gone.groovy"⟩
    let added : Url := ⟨"file:///w/New.groovy"⟩
    let secret : Path := .ofString "/w/Secret.groovy"
    let still : Disk Id := ((FileSystem.empty.writeFile (.ofString "/w/New.groovy") []).writeFile
      secret []).atRest
    let disk : Disk Id :=
      { still with read := fun path =>
          if path = secret then pure (.error (.other "Permission denied")) else still.read path }
    let buffers : Buffers :=
      (((Buffers.empty.openDocument ⟨"untitled:1"⟩ "" 1).openDocument ⟨"file:///o/O.groovy"⟩ ""
        1).noteChanged gone).noteChanged added |>.noteChanged ⟨"file:///w/Secret.groovy"⟩
    let loader : Loader := ⟨.ofClasspath ⟨[]⟩⟩
    let before : Session :=
      (Session.empty loader.config).insertAll [.ofDisk gone (.ofString "/w/Gone.groovy") [] loader]
    ∃ after summary,
      ((⟨⟨[], none⟩, .active before⟩ : Workspace).reconcile disk buffers.atRest
          (some (.ofString "/w"))).run = (⟨⟨[], none⟩, .active after⟩, summary)
        ∧ summary = ⟨false, 1, 1, [.read secret (.other "Permission denied"),
            .location ⟨⟨"untitled:1"⟩, none⟩]⟩
        ∧ after.size = 1 ∧ after.get? ⟨"file:///w/Secret.groovy"⟩ = none := by
  intro gone added secret still disk buffers loader before
  have hstill : still.Lawful := FileSystem.lawful_atRest (by decide)
  have hdisk : disk.Lawful := ⟨hstill.entryName, hstill.pathLimit⟩
  have hlists : disk.ListsOnce := FileSystem.listsOnce_atRest (by decide)
  have hopen : buffers.openUrls.Nodup := by decide
  have hordered : ∀ session, (⟨⟨[], none⟩, .active before⟩ : Workspace).session? = some session →
      session.Ordered := by
    intro session hsession
    rw [← Option.some.inj hsession]
    exact (Session.ordered_empty _).insertAll _
  obtain ⟨after, summary, hrun, -, -, -, hcounts, haccounts⟩ :=
    reconcile_account hdisk hlists hopen hordered (some (.ofString "/w"))
  have hsummary : ((⟨⟨[], none⟩, .active before⟩ : Workspace).reconcile disk buffers.atRest
      (some (.ofString "/w"))).run.2 = ⟨false, 1, 1, [.read secret (.other "Permission denied"),
        .location ⟨⟨"untitled:1"⟩, none⟩]⟩ := by
    decide +kernel
  rw [hrun] at hsummary
  dsimp only at hsummary
  have hunread : .read secret (.other "Permission denied") ∈ summary.errors := by
    rw [hsummary]
    exact List.mem_cons_self
  obtain ⟨url, hurl, hget⟩ := haccounts.unread _ _ hunread
  have hsecret : Url.ofFilePath? secret = some ⟨"file:///w/Secret.groovy"⟩ := by decide
  obtain rfl := Option.some.inj (hsecret.symm.trans hurl)
  refine ⟨after, summary, hrun, hsummary, ?_, hget⟩
  rw [hcounts.size, hsummary]
  rfl

end Workspace

end WorkspaceSession
