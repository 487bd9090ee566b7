/-
What a reconciliation does to each document.

A reconciliation removes, walks and asks the editor, and all three write the same map under
different guards. Seen from one document the guards do not mix: if the document is not one of the
changed ones nothing happens to it, and otherwise it ends with what a survey of the present disk and
editor has for it, `Survey.fresh`, whatever the session was before (`Workspace.get?_reconcile`). The
disk and the editor are over `Id` here, so that their answers do not change during the call.

The survey is first reduced to its sources, one list from the files and one from the documents, in
which everything about the order of events is the order of the list; a later source of a document
wins. An open document is passed over in the files and a closed one is absent from the documents, so
there is nothing to win.
-/
import WorkspaceSession.FileSystem.Edit
import WorkspaceSession.Proofs.BufferMap
import WorkspaceSession.Proofs.Findings
import WorkspaceSession.Proofs.SourceFiles

set_option autoImplicit false

namespace WorkspaceSession

/-! ## Searching from the end -/

section

variable {α β : Type}

theorem find?_filterMap_eq_findSome? (p : β → Bool) (f : α → Option β) (l : List α) :
    (l.filterMap f).find? p = l.findSome? fun a => (f a).filter p := by
  induction l with
  | nil => rfl
  | cons a l ih =>
    rw [List.findSome?_cons]
    cases hf : f a with
    | none => rw [List.filterMap_cons_none hf, ih, Option.filter_none]
    | some b =>
      rw [List.filterMap_cons_some hf, List.find?_cons, ih, Option.filter_some]
      cases p b with
      | true => rfl
      | false => rfl

/-- The last result that satisfies `p` is the first one found from the end. -/
theorem find?_reverse_filterMap (p : β → Bool) (f : α → Option β) (l : List α) :
    (l.filterMap f).reverse.find? p = l.reverse.findSome? fun a => (f a).filter p := by
  rw [← List.filterMap_reverse, find?_filterMap_eq_findSome?]

/-- Where only one element gives a result, the search gives it if the element is there. -/
theorem findSome?_ite_eq [DecidableEq α] (a : α) (r : Option β) (l : List α) :
    (l.findSome? fun b => if b = a then r else none) = if a ∈ l then r else none := by
  induction l with
  | nil => rfl
  | cons b l ih =>
    rw [List.findSome?_cons, ih]
    by_cases hb : b = a
    · subst hb
      rw [if_pos rfl, if_pos List.mem_cons_self]
      cases r with
      | none => exact ite_self none
      | some x => rfl
    · rw [if_neg hb]
      simp [Ne.symm hb]

end

/-! ## Editors -/

/-- An editor that lists exactly the documents of which it says that they are open. -/
def Editor.Consistent (editor : Editor Id) : Prop :=
  ∀ url, url ∈ editor.openUrls.run ↔ (editor.isOpen url).run = true

theorem Buffers.consistent_atRest (buffers : Buffers) :
    (buffers.atRest : Editor Id).Consistent :=
  fun _ => Buffers.mem_openUrls

namespace Survey

variable (disk : Disk Id) (editor : Editor Id) (changed? : Option (List Url)) (root? : Option Path)
  (loader : Loader)

/-! ## Sources in files -/

/-- The source that a survey finds in a source file. -/
def fileSource? (path : Path) : Option Source :=
  match Url.ofFilePath? path with
  | none => none
  | some url =>
    if (editor.isOpen url).run = false ∧ isAbout changed? url = true then
      (disk.read path).run.toOption.map fun bytes => .ofDisk url path bytes loader
    else none

theorem run_readSource (path : Path) (url : Url) :
    (readSource disk editor changed? loader path url).run
      = if (editor.isOpen url).run = false ∧ isAbout changed? url = true then
          match (disk.read path).run with
          | .ok bytes => [.ok (.ofDisk url path bytes loader)]
          | .error e => [.error (.read path e)]
        else [] := by
  rw [readSource, Id.run_bind]
  by_cases hopen : (editor.isOpen url).run = true
  · rw [if_pos hopen, if_neg (by simp [hopen])]
    rfl
  · rw [if_neg hopen]
    by_cases habout : isAbout changed? url = true
    · rw [if_pos habout, if_pos ⟨by simpa using hopen, habout⟩, Id.run_bind]
      cases (disk.read path).run with
      | error e => rfl
      | ok bytes => rfl
    · rw [if_neg habout, if_neg fun h => habout h.2]
      rfl

theorem sources_findFile (path : Path) (kind : NodeKind) :
    sources (findFile disk editor changed? loader path kind).run
      = (if (isSourceFile disk path kind).run then [path] else []).filterMap
          (fileSource? disk editor changed? loader) := by
  rw [findFile, Id.run_bind]
  split_ifs with hsource
  · cases hurl : Url.ofFilePath? path with
    | none =>
      have hnone : fileSource? disk editor changed? loader path = none := by
        rw [fileSource?, hurl]
      rw [List.filterMap_cons_none hnone]
      rfl
    | some url =>
      have hsource : fileSource? disk editor changed? loader path
          = if (editor.isOpen url).run = false ∧ isAbout changed? url = true then
              (disk.read path).run.toOption.map fun bytes => .ofDisk url path bytes loader
            else none := by
        rw [fileSource?, hurl]
      dsimp only
      rw [run_readSource, List.filterMap_cons, hsource]
      split_ifs
      · cases (disk.read path).run with
        | error e => rfl
        | ok bytes => rfl
      · rfl
  · rfl

/-- The sources in files are those of the source files, in the order of the walk. -/
theorem sources_files (root : Path) :
    sources (files disk editor changed? loader root).run
      = (sourceFiles disk root).filterMap (fileSource? disk editor changed? loader) := by
  rw [run_files, sources, sourceFiles, List.filterMap_flatMap, List.filterMap_flatMap]
  congr 1
  funext meeting
  cases meeting with
  | place path kind => exact sources_findFile disk editor changed? loader path kind
  | refusal path e => rfl

/-- The last source of a document in files is what the disk contributes, unless the document is
open or the survey is not about it. -/
theorem find?_sources_files (root : Path) (url : Url) :
    ((sources (files disk editor changed? loader root).run).reverse.find? fun s => s.url = url)
      = if (editor.isOpen url).run = false ∧ isAbout changed? url = true then
          (contribution disk root url).map fun (path, bytes) => .ofDisk url path bytes loader
        else none := by
  have hone : ∀ path,
      (fileSource? disk editor changed? loader path).filter (fun s => s.url = url)
        = if (editor.isOpen url).run = false ∧ isAbout changed? url = true then
            (contributionOf disk url path).map fun (path, bytes) => .ofDisk url path bytes loader
          else none := by
    intro path
    -- The guards are asked of the file's own URL, which is the document's where it matters.
    rw [fileSource?, contributionOf]
    cases hurl : Url.ofFilePath? path with
    | none => simp
    | some url' =>
      dsimp only
      by_cases hsame : url' = url
      · subst hsame
        rw [if_pos rfl]
        split_ifs
        · cases (disk.read path).run with
          | error e => rfl
          | ok bytes => simp [Except.toOption, Source.ofDisk]
        · rfl
      · have hne : ¬some url' = some url := fun h => hsame (Option.some.inj h)
        rw [if_neg hne, Option.map_none, ite_self]
        split_ifs
        · cases (disk.read path).run with
          | error e => rfl
          | ok bytes => simp [Except.toOption, Source.ofDisk, hsame]
        · rfl
  rw [sources_files, find?_reverse_filterMap, contribution]
  simp only [hone]
  split_ifs
  · rw [List.map_findSome?]
    rfl
  · rw [List.findSome?_eq_none_iff]
    exact fun _ _ => rfl

/-! ## Sources in documents -/

/-- The source that an open document has. -/
def documentSource? (url : Url) : Option Source :=
  match Location.ofUrl url with
  | .error _ => none
  | .ok location =>
    if root?.all location.liesIn then
      (editor.text? url).run.map fun content => .ofBuffer url location content loader
    else none

theorem url_of_documentSource? {url : Url} {s : Source}
    (h : documentSource? editor root? loader url = some s) : s.url = url := by
  unfold documentSource? at h
  cases hlocation : Location.ofUrl url with
  | error unknown =>
    rw [hlocation] at h
    exact nomatch h
  | ok location =>
    rw [hlocation] at h
    dsimp only at h
    split_ifs at h
    obtain ⟨content, -, rfl⟩ := Option.map_eq_some_iff.mp h
    rfl

theorem sources_findDocument (url : Url) :
    sources (findDocument editor changed? root? loader url).run
      = (if isAbout changed? url then documentSource? editor root? loader url
          else none).toList := by
  unfold findDocument documentSource?
  split_ifs
  · cases Location.ofUrl url with
    | error unknown => rfl
    | ok location =>
      dsimp only
      split_ifs
      · rw [Id.run_bind]
        cases (editor.text? url).run with
        | none => rfl
        | some content => rfl
      · rfl
  · rfl

/-- The sources in documents are those of the open documents, in their order. -/
theorem sources_documents :
    sources (documents editor changed? root? loader).run
      = editor.openUrls.run.filterMap fun url =>
          if isAbout changed? url then documentSource? editor root? loader url else none := by
  rw [documents, Id.run_bind, Id.run_bind, List.idRun_mapM, Id.run_pure, ← List.flatMap_def,
    sources, List.filterMap_flatMap, List.filterMap_eq_flatMap_toList]
  congr 1
  funext url
  exact sources_findDocument editor changed? root? loader url

theorem find?_sources_documents (url : Url) :
    ((sources (documents editor changed? root? loader).run).reverse.find? fun s => s.url = url)
      = if url ∈ editor.openUrls.run ∧ isAbout changed? url = true then
          documentSource? editor root? loader url
        else none := by
  have hone : ∀ url',
      (if isAbout changed? url' then documentSource? editor root? loader url' else none).filter
          (fun s => s.url = url)
        = if url' = url then
            if isAbout changed? url then documentSource? editor root? loader url else none
          else none := by
    intro url'
    -- A source has the URL of its document, so the filter keeps one document's source.
    by_cases hsame : url' = url
    · subst hsame
      rw [if_pos rfl]
      split_ifs
      · cases hs : documentSource? editor root? loader url' with
        | none => rfl
        | some s => simp [url_of_documentSource? editor root? loader hs]
      · rfl
    · rw [if_neg hsame]
      split_ifs
      · cases hs : documentSource? editor root? loader url' with
        | none => rfl
        | some s => simp [url_of_documentSource? editor root? loader hs, hsame]
      · rfl
  rw [sources_documents, find?_reverse_filterMap]
  simp only [hone]
  rw [findSome?_ite_eq, ite_and]
  simp only [List.mem_reverse]

/-! ## Fresh sources -/

/-- What the present disk and editor have for a document: the buffer if it is open, and otherwise
what the disk contributes. -/
def fresh (url : Url) : Option Source :=
  if (editor.isOpen url).run then documentSource? editor root? loader url
  else
    (root?.bind fun root => contribution disk root url).map fun (path, bytes) =>
      .ofDisk url path bytes loader

variable {editor} in
/-- **The outcome of a survey** for a document is the fresh source, if the survey is about it. -/
theorem find?_sources_run (heditor : editor.Consistent) (url : Url) :
    ((sources (run disk editor changed? root? loader).run).reverse.find? fun s => s.url = url)
      = if isAbout changed? url then fresh disk editor root? loader url else none := by
  have hrun : sources (run disk editor changed? root? loader).run
      = sources (inWorkspace disk editor changed? loader root?).run
        ++ sources (documents editor changed? root? loader).run := by
    rw [run, Id.run_bind, Id.run_bind, Id.run_pure, sources, List.filterMap_append]
    rfl
  have hfiles :
      ((sources (inWorkspace disk editor changed? loader root?).run).reverse.find?
          fun s => s.url = url)
        = if (editor.isOpen url).run = false ∧ isAbout changed? url = true then
            (root?.bind fun root => contribution disk root url).map fun (path, bytes) =>
              .ofDisk url path bytes loader
          else none := by
    cases root? with
    | none => exact (ite_self none).symm
    | some root => exact find?_sources_files disk editor changed? loader root url
  rw [hrun, List.reverse_append, List.find?_append, find?_sources_documents, hfiles, fresh]
  -- The documents come last and are searched first. With a consistent editor the two lists never
  -- compete: one has open documents only, the other has none.
  simp only [heditor url]
  cases isAbout changed? url with
  | false => simp
  | true =>
    cases (editor.isOpen url).run with
    | false => simp
    | true => simp

/-- What the present has for a document, without reference to a walk. Nothing here speaks of a
session but for its loader. -/
inductive Present (url : Url) : Source → Prop
  /-- An open document that has contents and a location, which lies under the root if there is
  one. -/
  | buffer {location : Path} {content : String} (isOpen : (editor.isOpen url).run = true)
      (located : Location.ofUrl url = .ok location)
      (inRoot : ∀ root, root? = some root → location.liesIn root = true)
      (held : (editor.text? url).run = some content) :
      Present url (.ofBuffer url location content loader)
  /-- The source file of the document's URL that can be read, if the document is not open. -/
  | file {root path : Path} {bytes : Bytes} (isClosed : (editor.isOpen url).run = false)
      (rooted : root? = some root) (isSource : SourceFile disk root path)
      (named : Url.ofFilePath? path = some url) (isRead : (disk.read path).run = .ok bytes) :
      Present url (.ofDisk url path bytes loader)

theorem documentSource?_eq_some_iff {url : Url} {s : Source} :
    documentSource? editor root? loader url = some s
      ↔ ∃ location content, Location.ofUrl url = .ok location
        ∧ (∀ root, root? = some root → location.liesIn root = true)
        ∧ (editor.text? url).run = some content ∧ s = .ofBuffer url location content loader := by
  have hall : ∀ location : Path, root?.all location.liesIn = true
      ↔ ∀ root, root? = some root → location.liesIn root = true := by
    intro location
    cases root? with
    | none => simp
    | some root => simp
  unfold documentSource?
  cases hlocation : Location.ofUrl url with
  | error unknown => simp
  | ok location =>
    dsimp only
    split_ifs with hinRoot
    · rw [Option.map_eq_some_iff]
      constructor
      · rintro ⟨content, hheld, rfl⟩
        exact ⟨location, content, rfl, (hall location).mp hinRoot, hheld, rfl⟩
      · rintro ⟨location', content, hlocation', -, hheld, rfl⟩
        obtain rfl := Except.ok.inj hlocation'
        exact ⟨content, hheld, rfl⟩
    · constructor
      · exact fun h => nomatch h
      · rintro ⟨location', content, hlocation', hinRoot', -⟩
        obtain rfl := Except.ok.inj hlocation'
        exact absurd ((hall location).mpr hinRoot') hinRoot

variable {disk} in
/-- On a lawful disk the fresh source is what the present has. -/
theorem fresh_eq_some_iff (hdisk : disk.Lawful) {url : Url} {s : Source} :
    fresh disk editor root? loader url = some s ↔ Present disk editor root? loader url s := by
  rw [fresh]
  cases hopen : (editor.isOpen url).run with
  | true =>
    rw [if_pos rfl, documentSource?_eq_some_iff]
    constructor
    · rintro ⟨location, content, hlocation, hinRoot, hheld, rfl⟩
      exact .buffer hopen hlocation hinRoot hheld
    · intro h
      cases h with
      | buffer _ located inRoot held => exact ⟨_, _, located, inRoot, held, rfl⟩
      -- No file counts for an open document.
      | file isClosed => exact nomatch hopen.symm.trans isClosed
  | false =>
    rw [if_neg (by simp), Option.map_eq_some_iff]
    constructor
    · rintro ⟨⟨path, bytes⟩, hcontribution, rfl⟩
      obtain ⟨root, hroot, hcontribution⟩ := Option.bind_eq_some_iff.mp hcontribution
      obtain ⟨hsource, hurl, hread⟩ := (contribution_eq_some_iff hdisk).mp hcontribution
      exact .file hopen hroot hsource hurl hread
    · intro h
      cases h with
      | buffer isOpen => exact nomatch hopen.symm.trans isOpen
      | @file root path bytes _ rooted isSource named isRead =>
        refine ⟨(path, bytes), ?_, rfl⟩
        rw [rooted, Option.bind_some]
        exact (contribution_eq_some_iff hdisk).mpr ⟨isSource, named, isRead⟩

end Survey

/-! ## Reconciliations -/

namespace Workspace

variable (disk : Disk Id) (editor : Editor Id) (root? : Option Path) {workspace : Workspace}

/-- Only what is listed can be dropped, and what is not listed has no source anyway. -/
theorem get?_dropChanged (session : Session) (changed : List Url) (url : Url) :
    (dropChanged session (some changed)).1.get? url
      = if url ∈ changed then none else session.get? url := by
  rw [dropChanged, Session.get?_eraseAll]
  simp only [List.mem_filter, List.contains_iff_mem]
  by_cases hlisted : url ∈ session.urls
  · simp only [hlisted, true_and]
  · simp only [hlisted, false_and, Session.get?_eq_none_of_not_mem hlisted, ite_self]

theorem run_reconcile_of_active {session : Session} (hsession : workspace.session? = some session) :
    (workspace.reconcile disk editor root?).run
      = workspace.settled false (dropChanged session (some editor.takeChanged.run))
          (Survey.run disk editor (some editor.takeChanged.run) (rootPath disk root?).run
            session.loader).run := by
  rw [reconcile_eq_of_active disk editor root? (stage_of_session? hsession)]
  rfl

/-- The loader of the session that a full build makes. -/
def newLoader (workspace : Workspace) : Loader :=
  ⟨.ofClasspath (Classpath.resolve disk workspace.settings.classpath
    workspace.settings.libraryDirectory?).run⟩

theorem run_reconcile_of_inactive (hsession : workspace.session? = none) :
    (workspace.reconcile disk editor root?).run
      = workspace.settled true (.empty (newLoader disk workspace).config, 0)
          (Survey.run disk editor none (rootPath disk root?).run (newLoader disk workspace)).run := by
  rw [reconcile_eq_of_inactive disk editor root? hsession]
  rfl

/-- An absolute root is what it is, whatever the working directory. -/
theorem run_rootPath {root? : Option Path}
    (hroot : ∀ root, root? = some root → root.isAbsolute = true) :
    (rootPath disk root?).run = root? := by
  cases root? with
  | none => rfl
  | some root =>
    rw [rootPath, Disk.absolute, if_pos (hroot root rfl)]
    rfl

/-! ## The order of the sources -/

theorem ordered_reconcile_of_active {session session' : Session}
    (hsession : workspace.session? = some session) (hordered : session.Ordered)
    (hresult : (workspace.reconcile disk editor root?).run.1.session? = some session') :
    session'.Ordered := by
  rw [run_reconcile_of_active disk editor root? hsession, session?_settled] at hresult
  rw [← Option.some.inj hresult]
  exact (hordered.eraseAll _).insertAll _

theorem ordered_reconcile_of_inactive {session' : Session} (hsession : workspace.session? = none)
    (hresult : (workspace.reconcile disk editor root?).run.1.session? = some session') :
    session'.Ordered := by
  rw [run_reconcile_of_inactive disk editor root? hsession, session?_settled] at hresult
  rw [← Option.some.inj hresult]
  exact (Session.ordered_empty _).insertAll _

/-! ## Document by document -/

section

variable {editor} (heditor : editor.Consistent)

include heditor

/-- **An incremental reconciliation, document by document.** A changed document ends with its fresh
source or with none, every other one keeps what it had. -/
theorem get?_reconcile_of_active {session : Session}
    (hsession : workspace.session? = some session) :
    ∃ session', (workspace.reconcile disk editor root?).run.1.session? = some session'
      ∧ ∀ url, session'.get? url
          = if url ∈ editor.takeChanged.run then
              Survey.fresh disk editor (rootPath disk root?).run session.loader url
            else session.get? url := by
  rw [run_reconcile_of_active disk editor root? hsession]
  refine ⟨_, session?_settled .., fun url => ?_⟩
  rw [Session.get?_insertAll, Survey.find?_sources_run disk _ _ _ heditor, get?_dropChanged]
  simp only [Survey.isAbout, List.contains_iff_mem]
  -- What is dropped and what is surveyed are the same documents.
  split_ifs
  · exact Option.or_none
  · exact Option.none_or

/-- **A full build, document by document.** Every document ends with its fresh source. -/
theorem get?_reconcile_of_inactive (hsession : workspace.session? = none) :
    ∃ session', (workspace.reconcile disk editor root?).run.1.session? = some session'
      ∧ ∀ url, session'.get? url
          = Survey.fresh disk editor (rootPath disk root?).run (newLoader disk workspace) url := by
  rw [run_reconcile_of_inactive disk editor root? hsession]
  refine ⟨_, session?_settled .., fun url => ?_⟩
  rw [Session.get?_insertAll, Survey.find?_sources_run disk _ _ _ heditor]
  exact Option.or_none

end

/-- **Incremental reconciliation is exact.** Whatever the disk and the editor answer, a document
that is not reported as changed keeps its source or its absence. With a disk and an editor that do
not change during the call, a changed document ends with what the present has for it. -/
theorem reconcile_incremental {workspace : Workspace} {session : Session}
    (hsession : workspace.session? = some session) (root? : Option Path) :
    (∀ {σ : Type} (disk : Disk (StateM σ)) (editor : Editor (StateM σ)) (s : σ),
      ∃ session', ((workspace.reconcile disk editor root?).run s).1.1.session? = some session'
        ∧ ∀ url, url ∉ (editor.takeChanged.run s).1 → session'.get? url = session.get? url)
    ∧ ∀ (disk : Disk Id) (editor : Editor Id), disk.Lawful → editor.Consistent →
      ∃ session', (workspace.reconcile disk editor root?).run.1.session? = some session'
        ∧ ∀ url ∈ editor.takeChanged.run, ∀ source,
            session'.get? url = some source
              ↔ Survey.Present disk editor (rootPath disk root?).run session.loader url source := by
  constructor
  · intro σ disk editor s
    obtain ⟨findings, hresult, hfound⟩ :=
      reconcile_active disk editor.ensures_any root? (stage_of_session? hsession) s
    refine ⟨_, by rw [hresult]; exact session?_settled .., fun url hurl => ?_⟩
    -- Everything found is about a changed document, so nothing found is this one's.
    have hnone :
        (Survey.sources findings).reverse.find? (fun source => source.url = url) = none := by
      rw [List.find?_eq_none]
      intro source hsource heq
      have habout := (hfound source (List.mem_reverse.mp hsource)).isAbout
      rw [decide_eq_true_eq.mp heq] at habout
      exact hurl (List.contains_iff_mem.mp habout)
    rw [Session.get?_insertAll, hnone, Option.none_or, get?_dropChanged, if_neg hurl]
  · intro disk editor hdisk heditor
    obtain ⟨session', hsession', hget⟩ :=
      get?_reconcile_of_active disk root? heditor hsession
    refine ⟨session', hsession', fun url hurl source => ?_⟩
    rw [hget, if_pos hurl, Survey.fresh_eq_some_iff editor _ _ hdisk]

/-- A new file below the root is read as soon as it is reported. -/
theorem reconcile_incremental_new_file :
    let url : Url := ⟨"file:///w/A.groovy"⟩
    let path : Path := .ofString "/w/A.groovy"
    let disk : Disk Id := (FileSystem.empty.writeFile path (.ofString "class A")).atRest
    let editor : Editor Id := Buffers.atRest ⟨[], [url]⟩
    let workspace : Workspace := ⟨⟨[], none⟩, .active (.empty (.ofClasspath ⟨[]⟩))⟩
    ∃ session', (workspace.reconcile disk editor (some (.ofString "/w"))).run.1.session?
        = some session'
      ∧ session'.get? url
        = some (.ofDisk url path (.ofString "class A") ⟨.ofClasspath ⟨[]⟩⟩) := by
  intro url path disk editor workspace
  have hdisk : disk.Lawful := FileSystem.lawful_atRest (by decide)
  have hdirectory : (disk.kind? (.ofString "/w")).run = some .directory := rfl
  have hroot : Survey.Reaches disk (.ofString "/w") (.ofString "/w") .directory :=
    .root hdirectory rfl
  have hlisted : (disk.entries (.ofString "/w")).run = .ok [⟨.ofString "A.groovy", .file⟩] := rfl
  have hfile : Survey.Reaches disk (.ofString "/w") path .file :=
    hroot.entry hlisted List.mem_cons_self
  obtain ⟨session', hsession', hget⟩ :=
    (@reconcile_incremental workspace _ rfl (some (.ofString "/w"))).2 disk editor hdisk
      (Buffers.consistent_atRest _)
  refine ⟨session', hsession', (hget url List.mem_cons_self _).mpr ?_⟩
  exact .file rfl rfl ⟨by decide, Or.inl hfile⟩ (by decide) rfl

end Workspace

end WorkspaceSession
