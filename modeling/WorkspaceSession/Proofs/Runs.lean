/-
Runs of the command over a disk at rest.

A run asks the disk for its settings, its root and its documents, one after the other, and the first
refusal ends it. On a disk that does not change these are three answers, and what the run reports is
a function of them (`CommandLine.reportOn`, `CommandLine.run_perform`).

The documents of a run are files and virtual documents, but both come to URLs with texts, which are
opened in order (`CommandLine.documentsToOpen`). Which URLs and texts these are does not depend on
what is open already, so one list of them says what the buffers of a run are
(`CommandLine.run_buffersOfRun`).
-/
import WorkspaceSession.CommandLine.Run
import WorkspaceSession.Proofs.Arguments
import WorkspaceSession.Proofs.FullBuild

set_option autoImplicit false

namespace WorkspaceSession

/-- The buffers after documents have been opened one after the other. -/
def Buffers.openAll (buffers : Buffers) (entries : List (Url × String)) : Buffers :=
  entries.foldl (fun buffers entry => buffers.openDocument entry.1 entry.2 1) buffers

theorem Buffers.openAll_append (buffers : Buffers) (entries entries' : List (Url × String)) :
    buffers.openAll (entries ++ entries') = (buffers.openAll entries).openAll entries' :=
  List.foldl_append

namespace CommandLine

/-! ## Documents -/

/-- What opening a file makes a document of. -/
def fileToOpen (disk : Disk Id) (file : Path) : Except RunError (Url × String) :=
  match (absolute disk file).run with
  | .error e => .error e
  | .ok path =>
    match (readText disk path).run with
    | .error cause => .error (.fileUnreadable path cause)
    | .ok text =>
      match Url.ofFilePath? path with
      | none => .error (.fileWithoutUrl path)
      | some url => .ok (url, text)

/-- What a virtual document is that is named inside a directory. -/
def virtualToOpen (base : Path) (given : String) : Except RunError (Url × String) := do
  let (name, text) ← splitDocument given
  return (← urlOfVirtual base name, text)

/-- The documents of a run under a root: the files and then the virtual documents. -/
def documentsToOpen (disk : Disk Id) (root : Path) (options : Options) :
    Except RunError (List (Url × String)) := do
  let files ← options.openFiles.mapM (fileToOpen disk)
  return files ++ (← options.virtualDocuments.mapM (virtualToOpen root))

theorem run_openFiles (disk : Disk Id) (buffers : Buffers) (files : List Path) :
    (openFiles disk buffers files).run
      = (files.mapM (fileToOpen disk)).map buffers.openAll := by
  induction files generalizing buffers with
  | nil => rfl
  | cons file rest ih =>
    rw [openFiles, List.mapM_cons, Id.run_bind, fileToOpen]
    cases (absolute disk file).run with
    | error e => rfl
    | ok path =>
      dsimp only
      rw [Id.run_bind]
      cases (readText disk path).run with
      | error cause => rfl
      | ok text =>
        dsimp only
        cases Url.ofFilePath? path with
        | none => rfl
        | some url =>
          dsimp only
          rw [ih]
          cases rest.mapM (fileToOpen disk) with
          | error e => rfl
          | ok entries => rfl

theorem openVirtualDocuments_eq_map (base : Path) (buffers : Buffers) (documents : List String) :
    openVirtualDocuments base buffers documents
      = (documents.mapM (virtualToOpen base)).map buffers.openAll := by
  induction documents generalizing buffers with
  | nil => rfl
  | cons given rest ih =>
    rw [openVirtualDocuments, List.mapM_cons, virtualToOpen]
    cases splitDocument given with
    | error e => rfl
    | ok document =>
      obtain ⟨name, text⟩ := document
      dsimp only [bind, Except.bind]
      cases urlOfVirtual base name with
      | error e => rfl
      | ok url =>
        dsimp only
        rw [ih]
        cases rest.mapM (virtualToOpen base) with
        | error e => rfl
        | ok entries => rfl

/-- **The buffers of a run** are its documents, opened in order. -/
theorem run_buffersOfRun (disk : Disk Id) (options : Options) (root : Path) :
    (buffersOfRun disk options (some root)).run
      = (documentsToOpen disk root options).map (Buffers.openAll .empty) := by
  have hbase : (baseDirectory disk (some root)).run = .ok root := rfl
  rw [buffersOfRun, Id.run_bind, run_openFiles, documentsToOpen]
  cases options.openFiles.mapM (fileToOpen disk) with
  | error e => rfl
  | ok files =>
    dsimp only [Except.map]
    rw [Id.run_bind, hbase]
    dsimp only
    rw [openVirtualDocuments_eq_map]
    cases options.virtualDocuments.mapM (virtualToOpen root) with
    | error e => rfl
    | ok documents => exact congrArg Except.ok (Buffers.openAll_append _ files documents).symm

/-- What is opened of a list of files is opened of one of them. -/
theorem exists_of_mem_mapM {disk : Disk Id} {files : List Path} {entries : List (Url × String)}
    (h : files.mapM (fileToOpen disk) = .ok entries) {entry : Url × String}
    (hmem : entry ∈ entries) : ∃ file ∈ files, fileToOpen disk file = .ok entry := by
  induction files generalizing entries with
  | nil =>
    obtain rfl := Except.ok.inj h
    exact absurd hmem List.not_mem_nil
  | cons file rest ih =>
    rw [List.mapM_cons] at h
    cases hfile : fileToOpen disk file with
    | error e =>
      rw [hfile] at h
      cases h
    | ok first =>
      cases hrest : rest.mapM (fileToOpen disk) with
      | error e =>
        rw [hfile, hrest] at h
        cases h
      | ok others =>
        rw [hfile, hrest] at h
        obtain rfl := Except.ok.inj h
        rcases List.mem_cons.mp hmem with rfl | hmem
        · exact ⟨file, List.mem_cons_self, hfile⟩
        · obtain ⟨other, hother, hopened⟩ := ih hrest hmem
          exact ⟨other, List.mem_cons_of_mem _ hother, hopened⟩

/-- One more file that can be opened is one more document, behind documents of other files, and
makes no difference to what cannot be opened. -/
theorem documentsToOpen_addsFile {disk : Disk Id} {file : Path} {options options' : Options}
    (hadds : options.AddsFile file options') {entry : Url × String}
    (hfile : fileToOpen disk file = .ok entry) (root : Path) :
    (∃ e, documentsToOpen disk root options = .error e
        ∧ documentsToOpen disk root options' = .error e)
      ∨ ∃ earlier later, documentsToOpen disk root options = .ok (earlier ++ later)
        ∧ documentsToOpen disk root options' = .ok (earlier ++ entry :: later)
        ∧ ∀ other ∈ earlier, ∃ file', fileToOpen disk file' = .ok other := by
  obtain ⟨before, behind, hfiles, rfl⟩ := hadds
  unfold documentsToOpen
  rw [hfiles, List.mapM_append, List.mapM_append, List.mapM_cons, hfile]
  cases hbefore : before.mapM (fileToOpen disk) with
  | error e => exact Or.inl ⟨e, rfl, rfl⟩
  | ok earlier =>
    cases behind.mapM (fileToOpen disk) with
    | error e => exact Or.inl ⟨e, rfl, rfl⟩
    | ok later =>
      cases options.virtualDocuments.mapM (virtualToOpen root) with
      | error e => exact Or.inl ⟨e, rfl, rfl⟩
      | ok documents =>
        refine Or.inr ⟨earlier, later ++ documents, ?_, ?_, fun other hother => ?_⟩
        · exact congrArg Except.ok (List.append_assoc ..)
        · exact congrArg Except.ok (List.append_assoc ..)
        · obtain ⟨file', -, hopened⟩ := exists_of_mem_mapM hbefore hother
          exact ⟨file', hopened⟩

/-! ## The report -/

/-- What a run reports that has its settings, its root and its buffers. -/
def reportOn (disk : Disk Id) (settings : Settings) (root : Path) (buffers : Buffers) : Report :=
  let session := Workspace.builtSession disk buffers (some root) (.ofSettings settings)
  let findings := Workspace.builtFindings disk buffers (some root) (.ofSettings settings)
  ⟨true, session.config.classpath, session.sources, Survey.errors findings⟩

/-- **A run under a root** is refused, or reports on its settings, its root and its documents. -/
theorem run_perform (disk : Disk Id) (environment? : Option String) {options : Options}
    {given root : Path} (hgiven : options.root? = some given)
    (hroot : (absolute disk given).run = .ok root) (habsolute : root.isAbsolute = true) :
    (perform disk environment? options).run
      = (do
          let settings ← (settingsOfRun disk environment? options).run
          let documents ← documentsToOpen disk root options
          return reportOn disk settings root (.openAll .empty documents)) := by
  have hrootOfRun : (rootOfRun disk options.root?).run = .ok (some root) := by
    rw [hgiven, rootOfRun, Id.run_bind, hroot]
    rfl
  rw [perform, Id.run_bind]
  cases (settingsOfRun disk environment? options).run with
  | error e => rfl
  | ok settings =>
    dsimp only
    rw [Id.run_bind, hrootOfRun]
    dsimp only
    rw [Id.run_bind, run_buffersOfRun]
    cases documentsToOpen disk root options with
    | error e => rfl
    | ok documents =>
      have hnew : (Workspace.ofSettings settings).session? = none := rfl
      have hreconciled := Workspace.run_reconcile_of_inactive disk
        (Buffers.openAll .empty documents).atRest (some root) hnew
      rw [Workspace.run_rootPath disk fun _ h => Option.some.inj h ▸ habsolute] at hreconciled
      dsimp only [Except.map]
      rw [Id.run_bind, hreconciled]
      rfl

/-! ## The outcome -/

theorem run_of_stop {disk : Disk Id} {environment? : Option String} {arguments : List String}
    {stop : Stop} (hparse : parse arguments = .error stop) :
    (run disk environment? arguments).run = .ofStop stop := by
  rw [run, hparse]
  rfl

theorem run_of_parse {disk : Disk Id} {environment? : Option String} {arguments : List String}
    {options : Options} (hparse : parse arguments = .ok options) :
    (run disk environment? arguments).run
      = match (perform disk environment? options).run with
        | .error e => .failure e.message
        | .ok report => .ofReport (options.format?.getD .text) report := by
  rw [run, hparse]
  dsimp only
  rw [Id.run_bind]
  cases (perform disk environment? options).run with
  | error e => rfl
  | ok report => rfl

/-- **Two runs.** With one more file to open, which can be opened, the arguments are refused as they
were without it, or the run fails as it did, or it reports with one more document open, behind
documents of other files. -/
theorem run_of_addsFile {disk : Disk Id} (environment? : Option String) {file : String}
    {arguments arguments' : List String} (hadds : AddsFile file arguments arguments')
    {given root : Path} (hgiven : ∀ options, parse arguments = .ok options →
      options.root? = some given)
    (hroot : (absolute disk given).run = .ok root) (habsolute : root.isAbsolute = true)
    {entry : Url × String} (hfile : fileToOpen disk (.ofString file) = .ok entry) :
    let outcome (arguments : List String) : Outcome := (run disk environment? arguments).run
    (∃ stop, parse arguments = .error stop ∧ outcome arguments = .ofStop stop
        ∧ outcome arguments' = .ofStop stop)
      ∨ (∃ message, outcome arguments = .failure message ∧ outcome arguments' = .failure message)
      ∨ ∃ format settings earlier later,
          outcome arguments
              = .ofReport format (reportOn disk settings root (.openAll .empty (earlier ++ later)))
            ∧ outcome arguments' = .ofReport format
                (reportOn disk settings root (.openAll .empty (earlier ++ entry :: later)))
            ∧ ∀ other ∈ earlier, ∃ file', fileToOpen disk file' = .ok other := by
  intro outcome
  rcases hadds.parse with ⟨stop, hstop, hstop'⟩ | ⟨options, options', hparse, hparse', hoptions⟩
  · exact Or.inl ⟨stop, hstop, run_of_stop hstop, run_of_stop hstop'⟩
  · have hrest : options'.root? = options.root? ∧ options'.format? = options.format?
        ∧ settingsOfRun disk environment? options' = settingsOfRun disk environment? options := by
      obtain ⟨before, behind, -, rfl⟩ := hoptions
      exact ⟨rfl, rfl, rfl⟩
    have hgiven' := hrest.1.trans (hgiven options hparse)
    have houtcome : outcome arguments = _ := run_of_parse hparse
    have houtcome' : outcome arguments' = _ := run_of_parse hparse'
    rw [run_perform disk environment? (hgiven options hparse) hroot habsolute] at houtcome
    rw [run_perform disk environment? hgiven' hroot habsolute, hrest.2.1, hrest.2.2] at houtcome'
    cases hread : (settingsOfRun disk environment? options).run with
    | error e =>
      rw [hread] at houtcome houtcome'
      exact Or.inr (Or.inl ⟨e.message, houtcome, houtcome'⟩)
    | ok settings =>
      rw [hread] at houtcome houtcome'
      rcases documentsToOpen_addsFile hoptions hfile root with
        ⟨e, hfailed, hfailed'⟩ | ⟨earlier, later, hopened, hopened', hearlier⟩
      · rw [hfailed] at houtcome
        rw [hfailed'] at houtcome'
        exact Or.inr (Or.inl ⟨e.message, houtcome, houtcome'⟩)
      · rw [hopened] at houtcome
        rw [hopened'] at houtcome'
        exact Or.inr (Or.inr ⟨_, settings, earlier, later, houtcome, houtcome', hearlier⟩)

end CommandLine

end WorkspaceSession
