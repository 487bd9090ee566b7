/-
Files that a run is to treat as open.

A file that is opened with its own content should change nothing but where its source comes from.
The walk leaves it to the open documents because it makes the URL of the path that it found, and
asks whether that is open; but the URL that is open was made of the path that the user gave. So it
comes down to whether the two paths have the same components. Then the report is the same, errors
and classpath included, up to the origin of this one source and the spelling of its path. Otherwise
the walk does not notice, and the file is reported from the disk as before, and once more from the
editor.

Paths that pass no link and do not go back have the same components as soon as they lead to the same
file (`FileSystem.components_eq_of_lookup`). A `..` stays in both, where one is given.
-/
import WorkspaceSession.Proofs.Accounts
import WorkspaceSession.Proofs.Enumerations
import WorkspaceSession.Proofs.Rebuild
import WorkspaceSession.Proofs.Respellings
import WorkspaceSession.Proofs.Runs

set_option autoImplicit false

namespace WorkspaceSession

/-! ## Texts -/

/-- Of bytes that are UTF-8 nothing is replaced. -/
theorem Text.Utf8.decodeLossy_of_decode? {bytes : Bytes} {cs : List Char}
    (h : decode? bytes = some cs) : decodeLossy bytes = cs := by
  rw [decode?] at h
  rw [decodeLossy]
  generalize scan none bytes = scanned at h ⊢
  induction scanned generalizing cs with
  | nil => exact Option.some.inj h
  | cons first rest ih =>
    rw [List.mapM_cons] at h
    obtain ⟨c, hfirst, htail⟩ := Option.bind_eq_some_iff.mp h
    obtain ⟨others, hothers, hcs⟩ := Option.bind_eq_some_iff.mp htail
    have hc : first = some c := hfirst
    rw [List.map_cons, ih hothers, hc, ← Option.some.inj hcs]
    rfl

/-! ## One more document -/

namespace Buffers

/-- Buffers that differ in one document at most, which is open in the second ones: with the buffer
that it has in the first ones, or with a given text if it is closed there. -/
structure OpensToo (buffers buffers' : Buffers) (url : Url) (text : String) : Prop where
  /-- The other documents are the same, in the same order. -/
  others : buffers'.documents.filter (fun entry => entry.1 ≠ url)
    = buffers.documents.filter fun entry => entry.1 ≠ url
  /-- The document is open. -/
  opened : buffers'.get? url = some ((buffers.get? url).getD ⟨text, 1⟩)

variable {buffers buffers' : Buffers} {url : Url} {text : String}

theorem OpensToo.get?_of_ne (h : OpensToo buffers buffers' url text) {url' : Url}
    (hne : url' ≠ url) : buffers'.get? url' = buffers.get? url' := by
  have hfound := congrArg (List.find? fun entry => entry.1 = url') h.others
  rw [find?_filter_ne, find?_filter_ne, if_neg (Ne.symm hne), if_neg (Ne.symm hne)] at hfound
  rw [get?, get?, hfound]

theorem OpensToo.get?_of_isOpen (h : OpensToo buffers buffers' url text)
    (hopen : buffers.isOpen url = true) : buffers'.get? url = buffers.get? url := by
  obtain ⟨document, hdocument⟩ := isOpen_iff_get?.mp hopen
  rw [h.opened, hdocument, Option.getD_some]

theorem OpensToo.isOpen (h : OpensToo buffers buffers' url text) : buffers'.isOpen url = true :=
  isOpen_iff_get?.mpr ⟨_, h.opened⟩

theorem OpensToo.text?_of_isClosed (h : OpensToo buffers buffers' url text)
    (hclosed : buffers.isOpen url = false) : buffers'.text? url = some text := by
  have hnone : buffers.get? url = none := by
    rw [Buffers.isOpen, Option.isSome_eq_false_iff, Option.isNone_iff_eq_none] at hclosed
    exact hclosed
  rw [text?, h.opened, hnone, Option.getD_none, Option.map_some]

theorem documents_openDocument (buffers : Buffers) (url : Url) (text : String) (version : Int) :
    (buffers.openDocument url text version).documents
      = buffers.documents.filter (fun entry => entry.1 ≠ url) ++ [(url, ⟨text, version⟩)] :=
  documents_noteChanged _ url

/-- The document itself is opened. -/
theorem opensToo_openDocument
    (h : ∀ document, buffers.get? url = some document → document = ⟨text, 1⟩) :
    OpensToo buffers (buffers.openDocument url text 1) url text where
  others := by
    rw [documents_openDocument, List.filter_append, List.filter_filter]
    simp
  opened := by
    rw [get?_openDocument, if_pos rfl]
    cases hbefore : buffers.get? url with
    | none => rfl
    | some document => rw [Option.getD_some, h document hbefore]

/-- Any document is opened on both sides. -/
theorem OpensToo.openDocument (h : OpensToo buffers buffers' url text) (url' : Url)
    (text' : String) :
    OpensToo (buffers.openDocument url' text' 1) (buffers'.openDocument url' text' 1) url text where
  others := by
    have hothers := congrArg (List.filter fun entry => entry.1 ≠ url') h.others
    rw [List.filter_filter, List.filter_filter] at hothers
    rw [documents_openDocument, documents_openDocument, List.filter_append, List.filter_append,
      List.filter_filter, List.filter_filter]
    simp only [Bool.and_comm] at hothers ⊢
    rw [hothers]
  opened := by
    rw [get?_openDocument, get?_openDocument]
    split_ifs
    · rfl
    · exact h.opened

theorem OpensToo.openAll (h : OpensToo buffers buffers' url text) (entries : List (Url × String)) :
    OpensToo (buffers.openAll entries) (buffers'.openAll entries) url text := by
  induction entries generalizing buffers buffers' with
  | nil => exact h
  | cons entry rest ih => exact ih (h.openDocument entry.1 entry.2)

/-- A document has the one text that it is opened with. -/
theorem eq_of_get?_openAll {entries : List (Url × String)}
    (hentries : ∀ entry ∈ entries, entry.1 = url → entry.2 = text)
    (h : ∀ document, buffers.get? url = some document → document = ⟨text, 1⟩) :
    ∀ document, (buffers.openAll entries).get? url = some document → document = ⟨text, 1⟩ := by
  induction entries generalizing buffers with
  | nil => exact h
  | cons entry rest ih =>
    obtain ⟨hentry, hrest⟩ := List.forall_mem_cons.mp hentries
    refine ih hrest fun document hdocument => ?_
    rw [get?_openDocument] at hdocument
    split_ifs at hdocument with hurl
    · rw [← Option.some.inj hdocument, hentry hurl]
    · exact h document hdocument

/-- **One more document among others**, behind none that gives it another text. -/
theorem opensToo_openAll {earlier : List (Url × String)}
    (hearlier : ∀ entry ∈ earlier, entry.1 = url → entry.2 = text) (later : List (Url × String)) :
    OpensToo (openAll .empty (earlier ++ later)) (openAll .empty (earlier ++ (url, text) :: later))
      url text := by
  rw [openAll_append, openAll_append]
  refine (opensToo_openDocument (eq_of_get?_openAll hearlier ?_)).openAll later
  exact fun _ h => nomatch h

end Buffers

/-! ## The errors of a survey -/

namespace Survey

theorem errors_append (findings findings' : List Finding) :
    errors (findings ++ findings') = errors findings ++ errors findings' :=
  List.filterMap_append

theorem errors_flatMap {α : Type} (l : List α) (f : α → List Finding) :
    errors (l.flatMap f) = l.flatMap fun a => errors (f a) :=
  List.filterMap_flatMap

variable {disk : Disk Id} {buffers buffers' : Buffers} {url : Url} {text : String} {root : Path}
  {loader : Loader}

/-- The errors about an open document are a matter of its URL: it may have no location. -/
theorem errors_findDocument (root? : Option Path) (loader : Loader) (url : Url) :
    errors (findDocument (buffers.atRest : Editor Id) none root? loader url).run
      = match Location.ofUrl url with
        | .error unknown => [.location unknown]
        | .ok _ => [] := by
  have habout : isAbout none url = true := rfl
  rw [findDocument, if_pos habout]
  cases Location.ofUrl url with
  | error unknown => rfl
  | ok location =>
    dsimp only
    split_ifs
    · rw [Id.run_bind]
      cases ((buffers.atRest : Editor Id).text? url).run with
      | none => rfl
      | some content => rfl
    · rfl

/-- A document with a location that is open too makes no error. -/
theorem errors_documents_eq (h : buffers.OpensToo buffers' url text) {location : Path}
    (hlocation : Location.ofUrl url = .ok location) (root? : Option Path) (loader : Loader) :
    errors (documents (buffers'.atRest : Editor Id) none root? loader).run
      = errors (documents (buffers.atRest : Editor Id) none root? loader).run := by
  have hothers : ∀ shown : Buffers,
      errors (documents (shown.atRest : Editor Id) none root? loader).run
        = (shown.documents.filter fun entry => entry.1 ≠ url).flatMap fun entry =>
            errors (findDocument (buffers.atRest : Editor Id) none root? loader entry.1).run := by
    intro shown
    have hopen : (shown.atRest : Editor Id).openUrls.run = shown.documents.map Prod.fst := rfl
    rw [documents, Id.run_bind, Id.run_bind, List.idRun_mapM, Id.run_pure, ← List.flatMap_def,
      errors_flatMap, hopen, List.flatMap_map]
    induction shown.documents with
    | nil => rfl
    | cons entry rest ih =>
      rw [List.flatMap_cons, ih]
      by_cases hurl : entry.1 = url
      · rw [List.filter_cons_of_neg (by simpa using hurl), errors_findDocument, hurl, hlocation]
        rfl
      · rw [List.filter_cons_of_pos (by simpa using hurl), List.flatMap_cons, errors_findDocument,
          errors_findDocument]
  rw [hothers, hothers, h.others]

/-- A file that is open too makes no error and hides none, if it can be read. -/
theorem errors_files_eq (h : buffers.OpensToo buffers' url text)
    (hreadable : ∀ path ∈ sourceFiles disk root, Url.ofFilePath? path = some url →
      ∃ bytes, (disk.read path).run = .ok bytes) (loader : Loader) :
    errors (files disk (buffers'.atRest : Editor Id) none loader root).run
      = errors (files disk (buffers.atRest : Editor Id) none loader root).run := by
  rw [run_files, run_files, errors_flatMap, errors_flatMap]
  refine List.flatMap_congr fun meeting hmeeting => ?_
  cases meeting with
  | refusal path cause => rfl
  | place path kind =>
    dsimp only [Meeting.elim]
    rw [findFile, findFile, Id.run_bind, Id.run_bind]
    by_cases hsource : (isSourceFile disk path kind).run = true
    · rw [if_pos hsource, if_pos hsource]
      cases hurl : Url.ofFilePath? path with
      | none => rfl
      | some url' =>
        dsimp only
        rw [run_readSource, run_readSource]
        by_cases heq : url' = url
        · subst heq
          have hmem : path ∈ sourceFiles disk root :=
            mem_sourceFiles_iff.mpr ⟨kind, hmeeting, hsource⟩
          obtain ⟨bytes, hread⟩ := hreadable path hmem hurl
          rw [hread]
          split_ifs <;> rfl
        · have hopen : ((buffers'.atRest : Editor Id).isOpen url').run
              = ((buffers.atRest : Editor Id).isOpen url').run :=
            Buffers.isOpen_congr (h.get?_of_ne heq)
          rw [hopen]
    · rw [if_neg hsource, if_neg hsource]

/-! ## The source of a file -/

/-- Other documents do not feel it. -/
theorem fresh_of_ne (h : buffers.OpensToo buffers' url text) {url' : Url} (hne : url' ≠ url)
    (root? : Option Path) (loader : Loader) :
    fresh disk buffers'.atRest root? loader url' = fresh disk buffers.atRest root? loader url' :=
  fresh_congr (h.get?_of_ne hne) (fun _ _ => rfl) loader

end Survey

/-- A source with its path in normal form. -/
def Source.normalized (source : Source) : Source :=
  { source with location := source.location.normalize }

/-- A source as it is from an open editor, with its path in normal form. -/
def Source.treatedAsOpen (source : Source) : Source :=
  { source.normalized with origin := .inMemory }

namespace Survey

variable {disk : Disk Id} {buffers buffers' : Buffers} {url : Url} {root p : Path}

/-- The document of a source file lies where the file does, under the root. -/
theorem exists_location_of_sourceFile (hdisk : disk.Lawful) (hsource : SourceFile disk root p)
    (hurl : Url.ofFilePath? p = some url) :
    ∃ location, Location.ofUrl url = .ok location ∧ location.components = p.components
      ∧ (some root).all location.liesIn = true := by
  obtain ⟨location, hlocation, hcomponents⟩ := Location.exists_ofUrl_of_ofFilePath? hurl
  obtain ⟨kind, hreached⟩ := hsource.exists_reaches
  obtain ⟨names, hnames, rfl⟩ := hreached.exists_names hdisk
  exact ⟨location, hlocation, hcomponents,
    (Path.liesIn_congr hcomponents root).trans (Path.liesIn_joinAll hnames root)⟩

section

variable (hdisk : disk.Lawful) (hsource : SourceFile disk root p)
  (hurl : Url.ofFilePath? p = some url) {bytes : Bytes} (hread : (disk.read p).run = .ok bytes)
include hdisk hsource hurl hread

/-- A source file that can be read has a source, be it open or not. -/
theorem exists_fresh (buffers : Buffers) (loader : Loader) :
    ∃ source, fresh disk buffers.atRest (some root) loader url = some source := by
  cases hopen : buffers.isOpen url with
  | true =>
    obtain ⟨location, hlocation, -, hunder⟩ := exists_location_of_sourceFile hdisk hsource hurl
    obtain ⟨content, hcontent⟩ := Buffers.exists_text?_of_isOpen hopen
    rw [fresh_of_isOpen hopen, documentSource?_of_text? loader hcontent hlocation, if_pos hunder]
    exact ⟨_, rfl⟩
  | false =>
    have hcontributed : contribution disk root url = some (p, bytes) :=
      (contribution_eq_some_iff hdisk).mpr ⟨hsource, hurl, hread⟩
    rw [fresh_of_isClosed hopen, Option.bind_some, hcontributed]
    exact ⟨_, rfl⟩

/-- **Only the origin changes.** A source file that is opened too with its own text has the source
that it had, but for where that comes from. -/
theorem fresh_treatedAsOpen {cs : List Char} (hdecode : Text.Utf8.decode? bytes = some cs)
    (h : buffers.OpensToo buffers' url (String.ofList cs)) (loader : Loader) :
    (fresh disk buffers'.atRest (some root) loader url).map Source.normalized
      = (fresh disk buffers.atRest (some root) loader url).map Source.treatedAsOpen := by
  obtain ⟨location, hlocation, hcomponents, hunder⟩ :=
    exists_location_of_sourceFile hdisk hsource hurl
  rw [fresh_of_isOpen h.isOpen]
  cases hopen : buffers.isOpen url with
  | true =>
    obtain ⟨content, hcontent⟩ := Buffers.exists_text?_of_isOpen hopen
    rw [fresh_of_isOpen hopen, documentSource?_congr loader (h.get?_of_isOpen hopen),
      documentSource?_of_text? loader hcontent hlocation, if_pos hunder]
    rfl
  | false =>
    have hcontributed : contribution disk root url = some (p, bytes) :=
      (contribution_eq_some_iff hdisk).mpr ⟨hsource, hurl, hread⟩
    have hdisplay : bytes.display = String.ofList cs := by
      rw [Bytes.display, Text.Utf8.decodeLossy_of_decode? hdecode]
    have hnormal : location.normalize = p.normalize := by
      rw [Path.normalize, Path.normalize, Path.normalComponents, Path.normalComponents, hcomponents]
    rw [fresh_of_isClosed hopen, Option.bind_some, hcontributed,
      documentSource?_of_text? loader (h.text?_of_isClosed hopen) hlocation, if_pos hunder]
    simp only [Option.map_some, Source.treatedAsOpen, Source.normalized, Source.ofDisk,
      Source.ofBuffer, hdisplay, hnormal]

end

end Survey

/-! ## Sessions -/

namespace Session

/-- A session with all its sources changed. -/
def mapSources (f : Source → Source) (session : Session) : Session :=
  { session with sources := session.sources.map f }

section

variable {f : Source → Source} (hf : ∀ source, (f source).url = source.url)
include hf

theorem Ordered.mapSources {session : Session} (h : session.Ordered) :
    (session.mapSources f).Ordered :=
  List.Pairwise.map _ (fun s s' hlt => by rw [hf, hf]; exact hlt) h

theorem get?_mapSources (session : Session) (url : Url) :
    (session.mapSources f).get? url = (session.get? url).map f := by
  have hkey : (fun source : Source => decide (source.url = url)) ∘ f
      = fun source => decide (source.url = url) := by
    funext source
    rw [Function.comp_apply, hf]
  rw [get?, get?, Session.mapSources, List.find?_map, hkey]

end

/-- Sources of two sessions are changed into the same ones in order, if they are so document by
document. -/
theorem map_sources_eq {session session' : Session} (h : session.Ordered) (h' : session'.Ordered)
    (hconfig : session'.config = session.config) {f g : Source → Source}
    (hf : ∀ source, (f source).url = source.url) (hg : ∀ source, (g source).url = source.url)
    (hget : ∀ url, (session'.get? url).map f = (session.get? url).map g) :
    session'.sources.map f = session.sources.map g := by
  have heq : session'.mapSources f = session.mapSources g := by
    refine eq_of_get? (h'.mapSources hf) (h.mapSources hg) hconfig fun url => ?_
    rw [get?_mapSources hf, get?_mapSources hg, hget]
  exact congrArg Session.sources heq

end Session

/-! ## Two reports -/

namespace CommandLine

/-- Two reports that differ in their sources only. -/
structure Report.SameButSources (report report' : Report) : Prop where
  /-- Both are on a session that was built from nothing, or neither is. -/
  fullBuild : report'.fullBuild = report.fullBuild
  /-- The libraries are the same. -/
  classpath : report'.classpath = report.classpath
  /-- The same sources are missing, for the same reasons. -/
  errors : report'.errors = report.errors

/-- Two reports that differ in one document only, which comes from the editor in the second one, and
in how the paths of sources are spelled. -/
structure Report.TreatsAsOpen (url : Url) (report report' : Report) : Prop
    extends report.SameButSources report' where
  /-- The sources are the same, but for the origin of the one. -/
  sources : report'.sources.map Source.normalized
    = report.sources.map fun source =>
        if source.url = url then source.treatedAsOpen else source.normalized

section

variable {disk : Disk Id} (settings : Settings) {root p : Path} {buffers buffers' : Buffers}
  {url : Url}

/-- What a report says about a document is the fresh source. -/
theorem mem_sources_reportOn {disk : Disk Id} {settings : Settings} {root : Path}
    {buffers : Buffers} {source : Source} :
    source ∈ (reportOn disk settings root buffers).sources
      ↔ Survey.fresh disk buffers.atRest (some root)
          (Workspace.newLoader disk (.ofSettings settings)) source.url = some source := by
  rw [← Workspace.get?_builtSession disk buffers (some root) (.ofSettings settings),
    (Workspace.ordered_builtSession ..).get?_eq_some_iff]
  exact ⟨fun h => ⟨h, rfl⟩, And.left⟩

theorem classpath_reportOn (disk : Disk Id) (settings : Settings) (root : Path)
    (buffers : Buffers) :
    (reportOn disk settings root buffers).classpath
      = (Workspace.newLoader disk (.ofSettings settings)).config.classpath :=
  congrArg Configuration.classpath (Session.config_insertAll ..)

/-- What is open too makes a difference to the sources only, if the walk can read it where it finds
it. -/
theorem sameButSources_reportOn {location : Path} {text : String}
    (h : buffers.OpensToo buffers' url text) (hlocation : Location.ofUrl url = .ok location)
    (hreadable : ∀ path ∈ Survey.sourceFiles disk root, Url.ofFilePath? path = some url →
      ∃ bytes, (disk.read path).run = .ok bytes) :
    (reportOn disk settings root buffers).SameButSources
      (reportOn disk settings root buffers') where
  fullBuild := rfl
  classpath := by rw [classpath_reportOn, classpath_reportOn]
  errors := by
    have hrun : ∀ buffers : Buffers, (reportOn disk settings root buffers).errors
        = Survey.errors (Survey.files disk (buffers.atRest : Editor Id) none
              (Workspace.newLoader disk (.ofSettings settings)) root).run
          ++ Survey.errors (Survey.documents (buffers.atRest : Editor Id) none (some root)
              (Workspace.newLoader disk (.ofSettings settings))).run :=
      fun buffers => Survey.errors_append ..
    rw [hrun, hrun, Survey.errors_documents_eq h hlocation, Survey.errors_files_eq h hreadable]

/-- **A file that is opened too with its own text** changes the origin of its source, and nothing
else. -/
theorem treatsAsOpen_reportOn (hdisk : disk.Lawful) (hsource : SourceFile disk root p)
    (hurl : Url.ofFilePath? p = some url) {bytes : Bytes} (hread : (disk.read p).run = .ok bytes)
    {cs : List Char} (hdecode : Text.Utf8.decode? bytes = some cs)
    (h : buffers.OpensToo buffers' url (String.ofList cs)) :
    (reportOn disk settings root buffers).TreatsAsOpen url
      (reportOn disk settings root buffers') where
  toSameButSources := by
    obtain ⟨location, hlocation, -⟩ := Location.exists_ofUrl_of_ofFilePath? hurl
    refine sameButSources_reportOn settings h hlocation fun path hpath hpathUrl => ?_
    obtain rfl := (Survey.sourceFile_of_mem_sourceFiles hpath).unique hdisk hsource hpathUrl hurl
    exact ⟨bytes, hread⟩
  sources := by
    let workspace := Workspace.ofSettings settings
    have hfresh := Survey.fresh_treatedAsOpen hdisk hsource hurl hread hdecode h
      (Workspace.newLoader disk workspace)
    have hordered := fun buffers =>
      Workspace.ordered_builtSession disk buffers (some root) workspace
    refine Session.map_sources_eq (hordered buffers) (hordered buffers') ?_ (fun _ => rfl)
      (fun s => ?_) fun url' => ?_
    · exact (Session.config_insertAll ..).trans (Session.config_insertAll ..).symm
    · split_ifs <;> rfl
    · have hurlOf : ∀ {s}, (Workspace.builtSession disk buffers (some root) workspace).get? url'
          = some s → s.url = url' := fun hs => by simpa using List.find?_some hs
      rw [Workspace.get?_builtSession] at hurlOf
      rw [Workspace.get?_builtSession, Workspace.get?_builtSession]
      by_cases heq : url' = url
      · rw [heq] at hurlOf ⊢
        rw [hfresh]
        exact Option.map_congr fun s hs => (if_pos (hurlOf hs)).symm
      · rw [Survey.fresh_of_ne h heq]
        exact Option.map_congr fun s hs => (if_neg (hurlOf hs ▸ heq)).symm

/-- What is open too is reported from the editor, if it lies under the root. -/
theorem exists_opened_reportOn {location : Path} {text : String}
    (h : buffers.OpensToo buffers' url text) (hlocation : Location.ofUrl url = .ok location)
    (hunder : location.liesIn root = true) :
    ∃ source ∈ (reportOn disk settings root buffers').sources,
      source.url = url ∧ source.origin = .inMemory ∧ source.location = location := by
  obtain ⟨content, hcontent⟩ := Buffers.exists_text?_of_isOpen h.isOpen
  have hall : (some root).all location.liesIn = true := hunder
  refine ⟨.ofBuffer url location content (Workspace.newLoader disk (.ofSettings settings)),
    mem_sources_reportOn.mpr ?_, rfl, rfl, rfl⟩
  change Survey.fresh disk buffers'.atRest (some root) _ url = _
  rw [Survey.fresh_of_isOpen h.isOpen, Survey.documentSource?_of_text? _ hcontent hlocation,
    if_pos hall]

/-- What is open too leaves the sources of all other documents. -/
theorem mem_reportOn_of_ne {text : String} (h : buffers.OpensToo buffers' url text)
    {source : Source} (hsource : source ∈ (reportOn disk settings root buffers).sources)
    (hne : source.url ≠ url) : source ∈ (reportOn disk settings root buffers').sources := by
  rw [mem_sources_reportOn] at hsource ⊢
  rw [Survey.fresh_of_ne h hne, hsource]

/-- The exit code tells no difference. -/
theorem Report.SameButSources.code_eq {report report' : Report}
    (h : report.SameButSources report') (format : ReportFormat) :
    (Outcome.ofReport format report').code = (Outcome.ofReport format report).code := by
  rw [Outcome.ofReport, Outcome.ofReport, h.errors]

/-- **Opened by which path?** If a file is opened too, the walk that finds it notices if the path is
the one that it finds. -/
theorem reportOn_of_opensToo (hdisk : disk.Lawful) (hsource : SourceFile disk root p)
    (hurl : Url.ofFilePath? p = some url) {bytes : Bytes} (hread : (disk.read p).run = .ok bytes)
    {cs : List Char} (hdecode : Text.Utf8.decode? bytes = some cs) {q : Path} {url' : Url}
    (hurl' : Url.ofFilePath? q = some url')
    (h : buffers.OpensToo buffers' url' (String.ofList cs)) :
    let report := reportOn disk settings root buffers
    let report' := reportOn disk settings root buffers'
    (∃ source ∈ report.sources, source.url = url)
      ∧ (q.same p = true → report.TreatsAsOpen url report')
      ∧ (q.same p = false → ∀ source ∈ report.sources, source.url = url →
          source ∈ report'.sources
            ∧ (q.liesIn root = true → ∃ other ∈ report'.sources, other.url ≠ url
              ∧ other.origin = .inMemory ∧ other.location.same q = true))
      ∧ ((∀ path, SourceFile disk root path → q.same path = false) →
          report.SameButSources report') := by
  intro report report'
  obtain ⟨location, hlocation, hcomponents⟩ := Location.exists_ofUrl_of_ofFilePath? hurl'
  refine ⟨?_, fun hsame => ?_, fun hother source hmem hsourceUrl => ?_, fun hunseen => ?_⟩
  · obtain ⟨source, hfresh⟩ := Survey.exists_fresh hdisk hsource hurl hread buffers
      (Workspace.newLoader disk (.ofSettings settings))
    have hsourceUrl : source.url = url := by
      rw [← Workspace.get?_builtSession] at hfresh
      simpa using List.find?_some hfresh
    exact ⟨source, mem_sources_reportOn.mpr (hsourceUrl ▸ hfresh), hsourceUrl⟩
  · rw [Url.ofFilePath?_congr (Path.same_iff.mp hsame), hurl] at hurl'
    obtain rfl := Option.some.inj hurl'
    exact treatsAsOpen_reportOn settings hdisk hsource hurl hread hdecode h
  · have hne : url ≠ url' := by
      rintro rfl
      rw [Path.same_iff.mpr (Url.components_eq_of_ofFilePath? hurl' hurl)] at hother
      exact absurd hother (by decide)
    refine ⟨mem_reportOn_of_ne settings h hmem (hsourceUrl ▸ hne), fun hunder => ?_⟩
    have hlocationUnder : location.liesIn root = true :=
      (Path.liesIn_congr hcomponents root).trans hunder
    obtain ⟨other, hmem', hotherUrl, horigin, rfl⟩ :=
      exists_opened_reportOn settings h hlocation hlocationUnder
    exact ⟨other, hmem', fun heq => hne (heq.symm.trans hotherUrl), horigin,
      Path.same_iff.mpr hcomponents⟩
  · refine sameButSources_reportOn settings h hlocation fun path hpath hpathUrl => ?_
    have hsame := Path.same_iff.mpr (Url.components_eq_of_ofFilePath? hurl' hpathUrl)
    rw [hunseen path (Survey.sourceFile_of_mem_sourceFiles hpath)] at hsame
    cases hsame

end

/-! ## Two runs -/

theorem readText_eq_ok_iff {disk : Disk Id} {path : Path} {text : String} :
    (readText disk path).run = .ok text
      ↔ ∃ bytes cs, (disk.read path).run = .ok bytes ∧ Text.Utf8.decode? bytes = some cs
        ∧ text = String.ofList cs := by
  rw [readText, Id.run_bind]
  cases (disk.read path).run with
  | error cause => simp
  | ok bytes =>
    cases hdecode : Text.Utf8.decode? bytes with
    | none => simp [hdecode]
    | some cs => simp [hdecode, eq_comm]

theorem fileToOpen_eq_ok_iff {disk : Disk Id} {file : Path} {url : Url} {text : String} :
    fileToOpen disk file = .ok (url, text)
      ↔ ∃ path, (absolute disk file).run = .ok path ∧ (readText disk path).run = .ok text
        ∧ Url.ofFilePath? path = some url := by
  rw [fileToOpen]
  cases (absolute disk file).run with
  | error e => simp
  | ok path =>
    dsimp only
    cases hread : (readText disk path).run with
    | error cause => simp [hread]
    | ok content =>
      dsimp only
      cases hurl : Url.ofFilePath? path with
      | none => simp [hurl]
      | some url' => simp [hread, hurl, and_comm]

theorem isAbsolute_join_of_isAbsolute {base : Path} (h : base.isAbsolute = true) (path : Path) :
    (base.join path).isAbsolute = true := by
  obtain ⟨rest, hbytes⟩ := List.head?_eq_some_iff.mp (of_decide_eq_true h)
  rw [Path.join, hbytes]
  split_ifs with hpath
  · exact hpath
  · rfl
  · rfl

theorem isAbsolute_pathOf (place : Place) : (FileSystem.pathOf place).isAbsolute = true := by
  rw [FileSystem.pathOf]
  split_ifs with hroot
  · rfl
  · obtain ⟨name, rest, rfl⟩ := List.exists_cons_of_ne_nil hroot
    rfl

section

variable {fs : FileSystem} {p q : Path}

/-- A path is read from the root or from a place, so it comes from the root. -/
theorem isAbsolute_of_absolute {given : Path}
    (h : (absolute (fs.atRest : Disk Id) given).run = .ok p) : p.isAbsolute = true := by
  rw [absolute, Id.run_bind, Disk.absolute] at h
  split_ifs at h with hgiven
  · obtain rfl := Except.ok.inj h
    exact hgiven
  · change ((fs.workingDirectory.map fun base => base.join given).mapError
      RunError.noWorkingDirectory) = .ok p at h
    rw [FileSystem.workingDirectory] at h
    split_ifs at h
    · obtain rfl := Except.ok.inj h
      exact isAbsolute_join_of_isAbsolute (isAbsolute_pathOf _) given
    · cases h

/-- Paths to one file read the same text. -/
theorem readText_congr (h : fs.lookup true p = fs.lookup true q) :
    (readText (fs.atRest : Disk Id) p).run = (readText (fs.atRest : Disk Id) q).run := by
  have hread : (fs.atRest : Disk Id).read p = (fs.atRest : Disk Id).read q :=
    congrArg pure (FileSystem.read_eq_of_lookup h)
  rw [readText, readText, hread]

/-- Two spellings of a path under which a text can be read are paths to one text. -/
theorem text_eq_of_components (h : p.components = q.components) (habsolute : p.isAbsolute = true)
    {text text' : String} (hp : (readText (fs.atRest : Disk Id) p).run = .ok text)
    (hq : (readText (fs.atRest : Disk Id) q).run = .ok text') : text = text' := by
  obtain ⟨bytes, cs, hpRead, hpDecode, rfl⟩ := readText_eq_ok_iff.mp hp
  obtain ⟨bytes', cs', hqRead, hqDecode, rfl⟩ := readText_eq_ok_iff.mp hq
  obtain rfl := FileSystem.content_eq_of_components h habsolute hpRead hqRead
  rw [Option.some.inj (hpDecode.symm.trans hqDecode)]

/-- What one run opens, but for one file more, another run opens too. -/
theorem opensToo_of_documentsToOpen {earlier : List (Url × String)}
    (hearlier : ∀ entry ∈ earlier, ∃ file, fileToOpen (fs.atRest : Disk Id) file = .ok entry)
    {url : Url} (hurl : Url.ofFilePath? q = some url) {text : String}
    (hread : (readText (fs.atRest : Disk Id) q).run = .ok text) (later : List (Url × String)) :
    (Buffers.openAll .empty (earlier ++ later)).OpensToo
      (Buffers.openAll .empty (earlier ++ (url, text) :: later)) url text := by
  refine Buffers.opensToo_openAll (fun entry hentry heq => ?_) later
  obtain ⟨file, hfile⟩ := hearlier entry hentry
  obtain ⟨path, habsolute, hpathRead, hpathUrl⟩ := fileToOpen_eq_ok_iff.mp hfile
  rw [heq] at hpathUrl
  exact text_eq_of_components (Url.components_eq_of_ofFilePath? hpathUrl hurl)
    (isAbsolute_of_absolute habsolute) hpathRead hread

end

/-- **One more file to open.** Add a file to the arguments of a run that is to be treated as open,
by a path to a source file that the walk of the run finds and that holds a text.
- Arguments that are refused are refused as before, and a run that cannot begin fails as before.
- If the path is the one that the walk finds, up to spelling, the run reports the same, except that
  the source of the file comes from the editor.
- If it is another path to the file, the source of the file stays as it was, and if that path lies
  under the root there is a second source for it.
- Whether it is that one or none that the walk finds, the libraries, the errors and the exit code
  are the same.
- It is the same path if neither goes back and neither passes a link. -/
theorem run_addsFile {fs : FileSystem}
    (hentries : ∀ node ∈ fs.nodes, ∀ name ∈ node.1, Path.IsEntryName name)
    (environment? : Option String) {file : String} {arguments arguments' : List String}
    (hadds : AddsFile file arguments arguments') {given root p q : Path} {text : String}
    (hgiven : ∀ options, parse arguments = .ok options → options.root? = some given)
    (hroot : (absolute (fs.atRest : Disk Id) given).run = .ok root)
    (hsource : SourceFile fs.atRest root p)
    (hread : (readText (fs.atRest : Disk Id) p).run = .ok text)
    (hfile : (absolute (fs.atRest : Disk Id) (.ofString file)).run = .ok q)
    (hfound : fs.lookup true q = fs.lookup true p) :
    let outcome (arguments : List String) : Outcome :=
      (run (fs.atRest : Disk Id) environment? arguments).run
    ((∃ stop, parse arguments = .error stop ∧ outcome arguments = .ofStop stop
        ∧ outcome arguments' = .ofStop stop)
      ∨ (∃ message, outcome arguments = .failure message ∧ outcome arguments' = .failure message)
      ∨ ∃ format report report' url, outcome arguments = .ofReport format report
          ∧ outcome arguments' = .ofReport format report' ∧ Url.ofFilePath? p = some url
          ∧ (∃ source ∈ report.sources, source.url = url)
          ∧ (q.same p = true → report.TreatsAsOpen url report')
          ∧ (q.same p = false → ∀ source ∈ report.sources, source.url = url →
              source ∈ report'.sources
                ∧ (q.liesIn root = true → ∃ other ∈ report'.sources, other.url ≠ url
                  ∧ other.origin = .inMemory ∧ other.location.same q = true))
          ∧ (q.same p = true ∨ (∀ path, SourceFile fs.atRest root path → q.same path = false) →
              report.SameButSources report'
                ∧ (outcome arguments').code = (outcome arguments).code))
    ∧ (.parent ∉ p.components → .parent ∉ q.components → fs.WithoutLinks p → fs.WithoutLinks q →
        q.same p = true) := by
  intro outcome
  have hdisk : (fs.atRest : Disk Id).Lawful := FileSystem.lawful_atRest hentries
  have hrootAbsolute := isAbsolute_of_absolute hroot
  have hqAbsolute := isAbsolute_of_absolute hfile
  obtain ⟨kind, hreached⟩ := hsource.exists_reaches
  obtain ⟨names, hnames, hnamed⟩ := hreached.exists_names hdisk
  have hpAbsolute : p.isAbsolute = true := by
    rw [hnamed, Path.isAbsolute_joinAll hnames, hrootAbsolute]
  have hqRead := (readText_congr hfound).trans hread
  obtain ⟨bytes, cs, hbytes, hdecode, rfl⟩ := readText_eq_ok_iff.mp hread
  refine ⟨?_, fun hpForward hqForward hpLinks hqLinks => ?_⟩
  · have hurl : Url.ofFilePath? p = some _ := if_pos hpAbsolute
    have hurl' : Url.ofFilePath? q = some _ := if_pos hqAbsolute
    have hopened := fileToOpen_eq_ok_iff.mpr ⟨q, hfile, hqRead, hurl'⟩
    rcases run_of_addsFile environment? hadds hgiven hroot hrootAbsolute hopened with
      hrefused | hfailed | ⟨format, settings, earlier, later, hrun, hrun', hearlier⟩
    · exact Or.inl hrefused
    · exact Or.inr (Or.inl hfailed)
    · have hopens := opensToo_of_documentsToOpen hearlier hurl' hqRead later
      obtain ⟨hheld, hnoticed, hmissed, hunseen⟩ :=
        reportOn_of_opensToo settings hdisk hsource hurl hbytes hdecode hurl' hopens
      refine Or.inr (Or.inr ⟨format, _, _, _, hrun, hrun', hurl, hheld, hnoticed, hmissed,
        fun hcase => ?_⟩)
      have hrest := hcase.elim (fun hsame => (hnoticed hsame).toSameButSources) hunseen
      have hcode := hrest.code_eq format
      exact ⟨hrest, (congrArg Outcome.code hrun').trans
        (hcode.trans (congrArg Outcome.code hrun).symm)⟩
  · obtain ⟨target, htarget⟩ := FileSystem.exists_lookup_of_read hbytes
    exact Path.same_iff.mpr (FileSystem.components_eq_of_lookup hqAbsolute hpAbsolute hqForward
      hpForward hqLinks hpLinks (hfound.trans htarget) htarget)

/-- A root and a file, both relative and both with segments that mean nothing, and a virtual
document behind them. -/
theorem run_addsFile_relative :
    let fs : FileSystem := {
      FileSystem.empty.writeFile (.ofString "/w/src/A.groovy") (.ofString "class A") with
      workingPlace := [.ofString "w"] }
    let outcome (arguments : List String) : Outcome :=
      (run (fs.atRest : Disk Id) none arguments).run
    ∃ format report report' url, outcome ["src/.", "--virtual", "S=1"] = .ofReport format report
      ∧ outcome ["src/.", "--open", "./src//A.groovy", "--virtual", "S=1"]
        = .ofReport format report'
      ∧ Url.ofFilePath? (.ofString "/w/src/A.groovy") = some url
      ∧ report.TreatsAsOpen url report' := by
  intro fs outcome
  have hentries : ∀ node ∈ fs.nodes, ∀ name ∈ node.1, Path.IsEntryName name := by decide
  obtain ⟨reading, hreading, hasks⟩ :=
    Reading.asks_root (show "src/.".toList.head? ≠ some '-' by decide) (by decide)
  have hadds : AddsFile "./src//A.groovy" ["src/.", "--virtual", "S=1"]
      ["src/.", "--open", "./src//A.groovy", "--virtual", "S=1"] := by
    refine ⟨by decide, ["src/."], [word .openFile, "./src//A.groovy"], ["--virtual", "S=1"],
      reading, _, ?_, hasks, .apart (by decide), rfl, by decide⟩
    rw [List.foldlM_cons, hreading]
    rfl
  have hparse : parse ["src/.", "--virtual", "S=1"]
      = .ok (.ofDocuments (.ofString "src/.") ["S=1"]) := by
    decide
  have hgiven : ∀ options, parse ["src/.", "--virtual", "S=1"] = .ok options →
      options.root? = some (.ofString "src/.") := by
    rw [hparse]
    rintro _ ⟨⟩
    rfl
  have hroot : (absolute (fs.atRest : Disk Id) (.ofString "src/.")).run
      = .ok (.ofString "/w/src/.") := by
    rfl
  have hsource : SourceFile fs.atRest (.ofString "/w/src/.") (.ofString "/w/src/./A.groovy") :=
    Survey.sourceFile_of_mem_sourceFiles (by decide +kernel)
  have hread : (readText (fs.atRest : Disk Id) (.ofString "/w/src/./A.groovy")).run
      = .ok "class A" := by
    rfl
  have hfile : (absolute (fs.atRest : Disk Id) (.ofString "./src//A.groovy")).run
      = .ok (.ofString "/w/./src//A.groovy") := by
    rfl
  obtain ⟨hreported, -⟩ :=
    run_addsFile hentries none hadds hgiven hroot hsource hread hfile (by decide +kernel)
  have hcode : (outcome ["src/.", "--virtual", "S=1"]).code = 0 := by decide +kernel
  rcases hreported with ⟨stop, hstop, -⟩ | ⟨message, hfailed, -⟩
    | ⟨format, report, report', url, hrun, hrun', hurl, -, hnoticed, -⟩
  · cases hparse.symm.trans hstop
  · have htwo : 2 = 0 := (congrArg Outcome.code hfailed).symm.trans hcode
    exact absurd htwo (by decide)
  · exact ⟨format, report, report', url, hrun, hrun', hurl, hnoticed (by decide)⟩

/-- A file that is named by way of a directory that is left again is reported twice. -/
theorem run_addsFile_twice :
    let fs : FileSystem := (FileSystem.empty.makeDirectory (.ofString "/w/x")).writeFile
      (.ofString "/w/A.groovy") (.ofString "class A")
    let outcome (arguments : List String) : Outcome :=
      (run (fs.atRest : Disk Id) none arguments).run
    AddsFile "/w/x/../A.groovy" ["/w"] ["/w", "--open", "/w/x/../A.groovy"]
      ∧ SourceFile fs.atRest (.ofString "/w") (.ofString "/w/A.groovy")
      ∧ (readText (fs.atRest : Disk Id) (.ofString "/w/A.groovy")).run = .ok "class A"
      ∧ fs.lookup true (.ofString "/w/x/../A.groovy") = fs.lookup true (.ofString "/w/A.groovy")
      ∧ fs.WithoutLinks (.ofString "/w/x/../A.groovy")
      ∧ outcome ["/w"]
        = ⟨0, "classpath (0 archives):\nsources (1):\n  /w/A.groovy [disk, 1 lines]\n", ""⟩
      ∧ outcome ["/w", "--open", "/w/x/../A.groovy"]
        = ⟨0, "classpath (0 archives):\nsources (2):\n  /w/A.groovy [disk, 1 lines]\n"
            ++ "  /w/x/../A.groovy [in-memory, 1 lines]\n", ""⟩ := by
  intro fs outcome
  obtain ⟨reading, hreading, hasks⟩ :=
    Reading.asks_root (show "/w".toList.head? ≠ some '-' by decide) (by decide)
  have hadds : AddsFile "/w/x/../A.groovy" ["/w"] ["/w", "--open", "/w/x/../A.groovy"] := by
    refine ⟨by decide, ["/w"], [word .openFile, "/w/x/../A.groovy"], [], reading, _, ?_, hasks,
      .apart (by decide), rfl, by decide⟩
    rw [List.foldlM_cons, hreading]
    rfl
  have hdirect : fs.WithoutLinks (.ofString "/w/x/../A.groovy") :=
    ⟨[.ofString "w", .ofString "A.groovy"], by decide⟩
  exact ⟨hadds, Survey.sourceFile_of_mem_sourceFiles (by decide +kernel), by rfl,
    by decide +kernel, hdirect, by decide +kernel, by decide +kernel⟩

end CommandLine

end WorkspaceSession
