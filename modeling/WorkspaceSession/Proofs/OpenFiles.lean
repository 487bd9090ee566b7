/-
Open files below a root.

A walk passes over the file of an open document and leaves it to the survey of documents. The two
do not ask the same question: the walk compares the URL that it makes of the file's path with the
open ones, and the survey of documents reads a location off the document's URL and looks whether it
lies under the root by its components. If the answers ever differed, an open file would be in
neither part and vanish from the session.

They do not differ. Whatever a walk visits is named from the root by names of entries
(`Survey.always_visits_below`), the URL of such a path reads back as the path, and such a path lies
under the root whatever the root looks like (`Path.liesIn_joinAll`). This needs no more of the disk
than that its entries have names, so it may change while it is walked.
-/
import WorkspaceSession.FileSystem.Edit
import WorkspaceSession.Proofs.NormalForms
import WorkspaceSession.Proofs.OpenDocuments

set_option autoImplicit false

namespace WorkspaceSession

/-! ## What a walk visits -/

/-- The entries that a disk shows have names that entries can have, at any time. -/
def Disk.NamesEntries {σ : Type} (disk : Disk (StateM σ)) : Prop :=
  ∀ path, Always (fun answer => ∀ entries, answer = .ok entries →
    ∀ entry ∈ entries, Path.IsEntryName entry.name) (disk.entries path)

/-- A path that is named from a directory by names of entries, or the directory itself. -/
def Path.Below (directory path : Path) : Prop :=
  ∃ names : List Bytes, (∀ name ∈ names, Path.IsEntryName name) ∧ path = directory.joinAll names

theorem Path.Below.of_join {directory path : Path} {name : Bytes} (hname : Path.IsEntryName name)
    (h : (directory.join ⟨name⟩).Below path) : directory.Below path := by
  obtain ⟨names, hnames, rfl⟩ := h
  refine ⟨name :: names, ?_, rfl⟩
  intro n hn
  rcases List.mem_cons.mp hn with rfl | hn
  · exact hname
  · exact hnames n hn

/-- A file system at rest shows the names that its places are made of. -/
theorem FileSystem.namesEntries_atRest {σ : Type} {fs : FileSystem}
    (h : ∀ node ∈ fs.nodes, ∀ name ∈ node.1, Path.IsEntryName name) :
    (fs.atRest : Disk (StateM σ)).NamesEntries :=
  fun _ _ _ hlisted => (lawful_atRest h).entryName hlisted

namespace Survey

variable {σ : Type}

/-- The places that the walk of a survey visits, in order, while it does at each of them what the
survey does there. -/
def visits (disk : Disk (StateM σ)) (editor : Editor (StateM σ)) (changed? : Option (List Url))
    (loader : Loader) (root : Path) (kind : NodeKind) : StateM σ (List Path) :=
  let visit (path : Path) (kind : NodeKind) : StateM σ (List Path) := do
    let _ ← findFile disk editor changed? loader path kind
    return [path]
  walk disk visit (fun path _ => path) maxDepth root kind

/-- A walk that notes where it is notes only places below the one where it starts. -/
theorem always_walk_below {disk : Disk (StateM σ)} (hdisk : disk.NamesEntries)
    {visit : Path → NodeKind → StateM σ (List Path)}
    (hvisit : ∀ path kind, Always (fun noted => ∀ p ∈ noted, p = path) (visit path kind))
    (depth : Nat) (path : Path) (kind : NodeKind) :
    Always (fun noted => ∀ p ∈ noted, path.Below p)
      (walk disk visit (fun path _ => path) depth path kind) := by
  have hself : ∀ path : Path, path.Below path := fun path => ⟨[], by simp, rfl⟩
  induction depth generalizing path kind with
  | zero => exact Always.pure (by simp)
  | succ depth ih =>
    rw [walk]
    refine Always.bind (hvisit path kind) fun here hhere => ?_
    split_ifs
    · refine Always.bind (hdisk path) fun answer hnames => ?_
      cases answer with
      | error e =>
        refine Always.pure fun p hp => ?_
        rcases List.mem_append.mp hp with hp | hp
        · exact hhere p hp ▸ hself p
        · exact List.mem_singleton.mp hp ▸ hself path
      | ok entries =>
        have hbelow : Always (fun noted => ∀ p ∈ noted.flatten, path.Below p)
            (entries.mapM fun entry =>
              walk disk visit (fun path _ => path) depth (path.join ⟨entry.name⟩) entry.kind) := by
          refine Always.mapM_flatten fun entry hentry => ?_
          intro s p hp
          exact (ih _ _ s p hp).of_join (hnames entries rfl entry hentry)
        refine Always.bind hbelow fun below hbelow => Always.pure fun p hp => ?_
        rcases List.mem_append.mp hp with hp | hp
        · exact hhere p hp ▸ hself p
        · exact hbelow p hp
    · exact Always.pure fun p hp => hhere p hp ▸ hself p

/-- **A survey's walk stays below its root**, and names what it visits by names of entries. -/
theorem always_visits_below {disk : Disk (StateM σ)} (hdisk : disk.NamesEntries)
    (editor : Editor (StateM σ)) (changed? : Option (List Url)) (loader : Loader) (root : Path)
    (kind : NodeKind) :
    Always (fun visited => ∀ p ∈ visited, root.Below p)
      (visits disk editor changed? loader root kind) := by
  refine always_walk_below hdisk (fun path kind => ?_) maxDepth root kind
  exact Always.bind_any fun _ => Always.pure fun p hp => List.mem_singleton.mp hp

end Survey

namespace Workspace

/-! ## One reconciliation -/

variable {σ : Type} (disk : Disk (StateM σ)) {workspace : Workspace} {buffers : Buffers}

/-- An absolute root is used as it is. -/
theorem usedRoot_of_isAbsolute {root : Path} (hroot : root.isAbsolute = true)
    (workspace : Workspace) (s : σ) :
    ((usedRoot disk (some root) workspace).run s).1 = some root := by
  have hrun : rootPath disk (some root) = pure (some root) := by
    rw [rootPath, Disk.absolute, if_pos hroot]
    rfl
  rw [usedRoot, hrun]
  rfl

/-- What a reconciliation leaves of the open documents that it is about, with or without a session
before. -/
theorem get?_reconcile_open (root? : Option Path) (workspace : Workspace) (buffers : Buffers)
    (s : σ) :
    ∃ session,
      ((workspace.reconcile disk buffers.atRest root?).run s).1.1.session? = some session
        ∧ ∀ url, buffers.isOpen url = true → workspace.Surveys buffers url →
          session.get? url = Survey.documentSource? buffers.atRest
            ((usedRoot disk root? workspace).run s).1 session.loader url := by
  cases hsession : workspace.session? with
  | none =>
    obtain ⟨session, hresult, hget⟩ :=
      get?_reconcile_open_of_inactive disk root? buffers hsession s
    exact ⟨session, hresult, fun url hopen _ => hget url hopen⟩
  | some before =>
    obtain ⟨session, hresult, hloader, hget⟩ :=
      get?_reconcile_open_of_active disk root? buffers hsession s
    refine ⟨session, hresult, fun url hopen hsurveys => ?_⟩
    have hpending : url ∈ buffers.changed :=
      hsurveys.resolve_left fun hnone => nomatch hsession.symm.trans hnone
    rw [hget url hopen, if_pos hpending, hloader]

/-- **Nothing falls between walk and documents.** If the walk of a reconciliation visits a file
whose document is open and concerns the reconciliation, the document has a location, which is the
path of the file and lies under the root as that does, and ends with the source of its buffer. The
disk may change between any two questions, and the walk may be one from any state. -/
theorem reconcile_openFile {disk : Disk (StateM σ)} (hdisk : disk.NamesEntries) {root : Path}
    (hroot : root.isAbsolute = true) {changed? : Option (List Url)} {loader : Loader}
    {kind : NodeKind} {s' : σ} {path : Path} {url : Url}
    (hvisited : path
      ∈ ((Survey.visits disk buffers.atRest changed? loader root kind).run s').1)
    (hurl : Url.ofFilePath? path = some url) (hsurveys : workspace.Surveys buffers url)
    (hopen : buffers.isOpen url = true) (s : σ) :
    ∃ session location content,
      ((workspace.reconcile disk buffers.atRest (some root)).run s).1.1.session? = some session
        ∧ Location.ofUrl url = .ok location ∧ location.same path = true
        ∧ path.liesIn root = true ∧ location.liesIn root = true
        ∧ buffers.text? url = some content
        ∧ session.get? url = some (.ofBuffer url location content session.loader) := by
  obtain ⟨names, hnames, rfl⟩ :=
    Survey.always_visits_below hdisk buffers.atRest changed? loader root kind s' path hvisited
  obtain ⟨location, hlocation, hcomponents⟩ := Location.exists_ofUrl_of_ofFilePath? hurl
  have hunder : (root.joinAll names).liesIn root = true := Path.liesIn_joinAll hnames root
  have hlocationUnder : location.liesIn root = true :=
    (Path.liesIn_congr hcomponents root).trans hunder
  obtain ⟨content, htext⟩ := Buffers.exists_text?_of_isOpen hopen
  obtain ⟨session, hsession, hget⟩ :=
    get?_reconcile_open disk (some root) workspace buffers s
  refine ⟨session, location, content, hsession, hlocation, decide_eq_true hcomponents,
    hunder, hlocationUnder, htext, ?_⟩
  rw [hget url hopen hsurveys, usedRoot_of_isAbsolute disk hroot,
    Survey.documentSource?_of_text? session.loader htext hlocation]
  exact if_pos hlocationUnder

/-- A file with an awkward name, open and pending, under a root that goes up again. -/
theorem reconcile_openFile_awkward :
    let root : Path := .ofString "/w/x/../y z"
    let path : Path := .ofString "/w/x/../y z/a%#?é.groovy"
    let url : Url := ⟨"file:///w/x/../y%20z/a%25%23%3F%C3%A9.groovy"⟩
    let disk : Disk (StateM Unit) := ((FileSystem.empty.makeDirectory (.ofString "/w/x")).writeFile
      (.ofString "/w/y z/a%#?é.groovy") (.ofString "class A")).atRest
    let opened : Buffers := Buffers.empty.openDocument url "class B" 1
    let workspace : Workspace := ⟨⟨[], none⟩, .active (.empty (.ofClasspath ⟨[]⟩))⟩
    ∃ session location,
      ((workspace.reconcile disk opened.atRest (some root)).run ()).1.1.session? = some session
        ∧ location.same path = true
        ∧ session.get? url = some (.ofBuffer url location "class B" session.loader) := by
  intro root path url disk opened workspace
  have hdisk : disk.NamesEntries := FileSystem.namesEntries_atRest (by decide)
  have hvisited : path
      ∈ ((Survey.visits disk opened.atRest none ⟨.ofClasspath ⟨[]⟩⟩ root .directory).run ()).1 := by
    decide +kernel
  have hurl : Url.ofFilePath? path = some url := by decide
  have hsurveys : workspace.Surveys opened url := Or.inr (by decide)
  obtain ⟨session, location, content, hsession, -, hsame, -, -, htext, hget⟩ :=
    reconcile_openFile hdisk (by decide) hvisited hurl hsurveys (by decide) ()
  have hcontent : opened.text? url = some "class B" := by decide
  obtain rfl := Option.some.inj (htext.symm.trans hcontent)
  exact ⟨session, location, hsession, hsame, hget⟩

end Workspace

end WorkspaceSession
