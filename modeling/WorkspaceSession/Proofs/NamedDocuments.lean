/-
Virtual documents that are named on the command line.

The name of such a document goes a long way. It is joined to a directory, escaped as the path of a
file's URL, moved to another scheme and read again; to find where the document lies it is moved
back, gets the extension behind it, is read once more, now by the rules of files, and decoded. Each
stage has its own idea of what a slash, a dot or a colon is. For the name of an entry they do not
matter: the URL reads back as it is written (`Url.parse_virtualText`), and what it is moved back to
is the URL of the file that has the name with the extension (`Location.fileFormText_virtualUrl`). So
a document lies where its name says, and no two names are one document.

The arguments decide before all this what is a name. One that begins with a dash looks like an
option and is taken for a document only in one word with the option that it belongs to.
-/
import WorkspaceSession.CommandLine.Run
import WorkspaceSession.Proofs.Arguments
import WorkspaceSession.Proofs.OpenFiles
import WorkspaceSession.Proofs.ReadBack
import WorkspaceSession.Proofs.TextBytes

set_option autoImplicit false

namespace WorkspaceSession

/-! ## Names as bytes -/

theorem Bytes.ofString_append (s t : String) :
    Bytes.ofString (s ++ t) = Bytes.ofString s ++ Bytes.ofString t := by
  rw [ofString, String.toList_append, Text.Utf8.encode_append]
  rfl

theorem Bytes.ofString_ne_nil {s : String} (h : Bytes.ofString s ≠ []) : s ≠ "" := by
  rintro rfl
  exact h rfl

/-- A name behind a path goes up nowhere. -/
theorem Path.parent_not_mem_components_join {base : Path} {name : Bytes} (hname : IsEntryName name)
    (hnamed : Component.parent ∉ base.components) :
    Component.parent ∉ (base.join ⟨name⟩).components := by
  rw [components_join hname, List.mem_append, List.mem_singleton]
  exact fun h => h.elim hnamed fun h => Component.noConfusion h

/-- A name with the extension of sources behind it. -/
theorem Path.IsEntryName.append_extension {name : Bytes} (h : IsEntryName name) :
    IsEntryName (name ++ Bytes.ofString ("." ++ sourceExtension)) := by
  have hseparator : separator ∉ Bytes.ofString ("." ++ sourceExtension) := by decide
  have hlong : 2 < (name ++ Bytes.ofString ("." ++ sourceExtension)).length := by
    have hlength : (Bytes.ofString ("." ++ sourceExtension)).length = 7 := by decide
    rw [List.length_append]
    omega
  refine ⟨fun heq => ?_, fun hmem => ?_, fun heq => ?_, fun heq => ?_⟩
  · rw [heq] at hlong
    exact absurd hlong (by decide)
  · exact (List.mem_append.mp hmem).elim h.2.1 hseparator
  · rw [heq] at hlong
    exact absurd hlong (by decide)
  · rw [heq] at hlong
    exact absurd hlong (by decide)

/-! ## Where a virtual document lies -/

namespace Url

/-- The URL of the virtual document that goes by the path of a file. -/
def virtualUrl (path : Path) : Url :=
  ⟨String.ofList ((virtualScheme ++ "://").toList ++ filePath path)⟩

theorem parts_virtualUrl (path : Path) :
    (virtualUrl path).parts = ⟨virtualScheme.toList, some [], filePath path⟩ := by
  obtain ⟨rest, hslash⟩ := exists_filePath_eq_cons path
  have hparts : Parts.ofText ((virtualScheme ++ "://").toList ++ filePath path)
      = ⟨virtualScheme.toList, some [], untilQuery (filePath path)⟩ := by
    rw [hslash]
    rfl
  rw [parts, virtualUrl, String.toList_ofList, hparts, untilQuery_filePath]

theorem isVirtual_virtualUrl (path : Path) : Location.isVirtual (virtualUrl path) = true := by
  rw [Location.isVirtual, scheme, parts_virtualUrl]
  exact decide_eq_true rfl

theorem components_eq_of_virtualUrl {p q : Path} (hp : p.isAbsolute = true)
    (hq : q.isAbsolute = true) (h : virtualUrl p = virtualUrl q) : p.components = q.components := by
  have htext : filePath p = filePath q :=
    List.append_cancel_left (String.ofList_injective (congrArg Url.text h))
  have hurl : ofFilePath? p = ofFilePath? q := by
    rw [ofFilePath?, ofFilePath?, hp, hq, htext]
  have hsome : ofFilePath? p = some ⟨String.ofList ("file://".toList ++ filePath p)⟩ := if_pos hp
  exact components_eq_of_ofFilePath? hsome (hurl ▸ hsome)

/-- A name is the last segment of the path. -/
theorem filePath_join {base : Path} {name : Bytes} (hname : Path.IsEntryName name)
    (hbase : base.isAbsolute = true) :
    filePath (base.join ⟨name⟩)
      = (base.components.drop 1).flatMap (fun component => '/' :: segmentOfComponent component)
        ++ '/' :: Percent.encode Percent.segment name := by
  have hcomponents : (base.join ⟨name⟩).components.drop 1
      = base.components.drop 1 ++ [.name name] := by
    rw [Path.components_join hname, Path.components_of_isAbsolute hbase]
    rfl
  rw [filePath, hcomponents]
  split
  next h => exact absurd h (by simp)
  next =>
    rw [List.flatMap_append, List.flatMap_singleton]
    rfl

/-- An extension stays what it is behind the path of a URL. -/
theorem filePath_append_ending {base : Path} {name : Bytes} (hname : Path.IsEntryName name)
    (hbase : base.isAbsolute = true) :
    filePath (base.join ⟨name⟩) ++ Location.ending
      = filePath (base.join ⟨name ++ Bytes.ofString ("." ++ sourceExtension)⟩) := by
  have hending : Percent.encode Percent.segment (Bytes.ofString ("." ++ sourceExtension))
      = Location.ending := by
    decide
  rw [filePath_join hname hbase, filePath_join hname.append_extension hbase, List.append_assoc,
    List.cons_append, ← hending, Percent.encode, Percent.encode, Percent.encode,
    List.flatMap_append]

end Url

namespace Location

variable {base : Path} (habsolute : base.isAbsolute = true)
  (hnamed : Path.Component.parent ∉ base.components)
include habsolute

/-- **The way back.** The file form of a virtual document that is named inside a directory is the
URL of the file of that name there. -/
theorem fileFormText_virtualUrl {name : Bytes} (hname : Path.IsEntryName name) :
    fileFormText (Url.virtualUrl (base.join ⟨name⟩))
      = String.ofList ("file://".toList
        ++ Url.filePath (base.join ⟨name ++ Bytes.ofString ("." ++ sourceExtension)⟩)) := by
  have hhost : (Url.virtualUrl (base.join ⟨name⟩)).host = [] := by
    rw [Url.host, Url.parts_virtualUrl]
    rfl
  rw [fileFormText_eq, hhost, List.nil_append, Url.path, Url.parts_virtualUrl,
    Url.filePath_append_ending hname habsolute]

include hnamed

/-- A virtual document that is named inside a directory lies there, under its name with the
extension. -/
theorem exists_ofUrl_virtualUrl {name : Bytes} (hname : Path.IsEntryName name) :
    ∃ location, ofUrl (Url.virtualUrl (base.join ⟨name⟩)) = .ok location
      ∧ location.components
        = (base.join ⟨name ++ Bytes.ofString ("." ++ sourceExtension)⟩).components := by
  have hfile := hname.append_extension
  have hfileAbsolute := (Path.isAbsolute_join hfile base).trans habsolute
  have hparse := Url.parse_fileText hfileAbsolute
    (Path.parent_not_mem_components_join hfile hnamed)
  rw [← fileFormText_virtualUrl habsolute hname] at hparse
  have hform : fileForm (Url.virtualUrl (base.join ⟨name⟩))
      = .ok ⟨fileFormText (Url.virtualUrl (base.join ⟨name⟩))⟩ := by
    rw [fileForm, Url.isVirtual_virtualUrl, if_pos rfl, hparse]
    rfl
  have hurl : Url.ofFilePath? (base.join ⟨name ++ Bytes.ofString ("." ++ sourceExtension)⟩)
      = some ⟨fileFormText (Url.virtualUrl (base.join ⟨name⟩))⟩ := by
    rw [fileFormText_virtualUrl habsolute hname]
    exact if_pos hfileAbsolute
  obtain ⟨location, hlocation, hcomponents⟩ := Url.exists_toFilePath?_of_ofFilePath? hurl
  refine ⟨location, ?_, hcomponents⟩
  rw [ofUrl_of_fileForm_eq_ok hform, hlocation]
  rfl

end Location

namespace CommandLine

/-! ## Opening named documents -/

/-- A name that a virtual document can be given: the name of an entry, without the sign that ends
it. -/
structure IsDocumentName (name : String) : Prop where
  /-- The name is that of an entry. -/
  entryName : Path.IsEntryName (Bytes.ofString name)
  /-- The name ends where the text begins. -/
  no_equals : '=' ∉ name.toList

section

variable {base : Path} (habsolute : base.isAbsolute = true)
  (hnamed : Path.Component.parent ∉ base.components)
include habsolute

/-- Names are told apart by their URLs. -/
theorem eq_of_virtualUrl {name name' : String} (hname : IsDocumentName name)
    (hname' : IsDocumentName name')
    (h : Url.virtualUrl (base.join (.ofString name))
      = Url.virtualUrl (base.join (.ofString name'))) :
    name = name' := by
  have hcomponents := Url.components_eq_of_virtualUrl
    ((Path.isAbsolute_join hname.entryName base).trans habsolute)
    ((Path.isAbsolute_join hname'.entryName base).trans habsolute) h
  rw [Path.components_join hname.entryName, Path.components_join hname'.entryName] at hcomponents
  have hlast := List.append_cancel_left hcomponents
  exact Bytes.ofString_injective (Path.Component.name.inj (List.cons.inj hlast).1)

include hnamed

/-- **A name gives a URL**, whatever it is made of. -/
theorem urlOfVirtual_eq {name : String} (hname : IsDocumentName name) :
    urlOfVirtual base name = .ok (Url.virtualUrl (base.join (.ofString name))) := by
  have hjoined := (Path.isAbsolute_join hname.entryName base).trans habsolute
  have hurl : Url.ofFilePath? (base.join (.ofString name))
      = some ⟨String.ofList ("file://".toList ++ Url.filePath (base.join (.ofString name)))⟩ :=
    if_pos hjoined
  have hmoved : virtualScheme.toList ++ (String.ofList ("file://".toList
        ++ Url.filePath (base.join (.ofString name)))).toList.drop fileScheme.toList.length
      = (virtualScheme ++ "://").toList ++ Url.filePath (base.join (.ofString name)) := by
    rw [String.toList_ofList, List.drop_append_of_le_length (by decide), ← List.append_assoc]
    rfl
  have hparse : Url.parse (String.ofList ((virtualScheme ++ "://").toList
        ++ Url.filePath (base.join (.ofString name))))
      = .ok (Url.virtualUrl (base.join (.ofString name))) :=
    Url.parse_virtualText hjoined (Path.parent_not_mem_components_join hname.entryName hnamed)
  rw [urlOfVirtual, hurl]
  dsimp only
  rw [hmoved, hparse]
  rfl

end

theorem splitDocument_givenDocument {document : String × String}
    (hname : '=' ∉ document.1.toList) : splitDocument (givenDocument document) = .ok document := by
  have htext : (givenDocument document).toList
      = document.1.toList ++ '=' :: document.2.toList := by
    rw [givenDocument, String.toList_append, String.toList_append, List.append_assoc]
    rfl
  have hcut : (document.1.toList ++ '=' :: document.2.toList).takeWhile (· ≠ '=')
      = document.1.toList := by
    rw [List.takeWhile_append_of_pos fun c hc => decide_eq_true (ne_of_mem_of_not_mem hc hname)]
    exact (congrArg _ (List.takeWhile_cons_of_neg (by decide))).trans (List.append_nil _)
  rw [splitDocument, htext, hcut, List.drop_left, String.ofList_toList]
  dsimp only
  rw [String.ofList_toList]

/-- The buffers after one more virtual document of a directory. -/
def openNamed (base : Path) (buffers : Buffers) (document : String × String) : Buffers :=
  buffers.openDocument (Url.virtualUrl (base.join (.ofString document.1))) document.2 1

section

variable {base : Path} (habsolute : base.isAbsolute = true)
include habsolute

/-- Named documents are opened one after the other. -/
theorem openVirtualDocuments_eq (hnamed : Path.Component.parent ∉ base.components)
    (buffers : Buffers) {documents : List (String × String)}
    (hnames : ∀ document ∈ documents, IsDocumentName document.1) :
    openVirtualDocuments base buffers (documents.map givenDocument)
      = .ok (documents.foldl (openNamed base) buffers) := by
  induction documents generalizing buffers with
  | nil => rfl
  | cons document rest ih =>
    obtain ⟨hname, hrest⟩ := List.forall_mem_cons.mp hnames
    rw [List.map_cons, openVirtualDocuments, splitDocument_givenDocument hname.no_equals]
    dsimp only [bind, Except.bind]
    rw [urlOfVirtual_eq habsolute hnamed hname]
    exact ih _ hrest

/-- Documents of other names leave the buffer of a named one. -/
theorem get?_foldl_openNamed {name : String} (hname : IsDocumentName name) (buffers : Buffers)
    {documents : List (String × String)}
    (hnames : ∀ document ∈ documents, IsDocumentName document.1)
    (hother : ∀ document ∈ documents, document.1 ≠ name) :
    (documents.foldl (openNamed base) buffers).get? (Url.virtualUrl (base.join (.ofString name)))
      = buffers.get? (Url.virtualUrl (base.join (.ofString name))) := by
  induction documents generalizing buffers with
  | nil => rfl
  | cons document rest ih =>
    obtain ⟨hfirst, hrest⟩ := List.forall_mem_cons.mp hnames
    obtain ⟨hne, hothers⟩ := List.forall_mem_cons.mp hother
    rw [List.foldl_cons, ih _ hrest hothers, openNamed, Buffers.get?_openDocument, if_neg]
    exact fun h => hne (eq_of_virtualUrl habsolute hfirst hname h)

/-- The last document of a name is the one that is open. -/
theorem text?_foldl_openNamed {before later : List (String × String)} {name text : String}
    (hnames : ∀ document ∈ before ++ (name, text) :: later, IsDocumentName document.1)
    (hother : ∀ document ∈ later, document.1 ≠ name) (buffers : Buffers) :
    ((before ++ (name, text) :: later).foldl (openNamed base) buffers).text?
        (Url.virtualUrl (base.join (.ofString name))) = some text := by
  obtain ⟨-, hlater⟩ := List.forall_mem_append.mp hnames
  obtain ⟨hname, hlater⟩ := List.forall_mem_cons.mp hlater
  rw [List.foldl_append, List.foldl_cons, Buffers.text?,
    get?_foldl_openNamed habsolute hname _ hlater hother, openNamed, Buffers.get?_openDocument,
    if_pos rfl]
  rfl

end

/-! ## Runs -/

/-- A run that has a root and opens only virtual documents comes to its reconciliation. -/
theorem perform_of_root {m : Type → Type} [Monad m] [LawfulMonad m] (disk : Disk m)
    (environment? : Option String) {root : Path} (hroot : root.isAbsolute = true)
    {documents : List String} {buffers : Buffers}
    (hbuffers : openVirtualDocuments root .empty documents = .ok buffers) :
    perform disk environment? (.ofDocuments root documents) = (do
      let (workspace, summary) ←
        (Workspace.ofSettings (Settings.ofEnvironment environment?)).reconcile disk buffers.atRest
          (some root)
      return .ok (.of (workspace.session?.getD (.empty (.ofClasspath .empty))) summary)) := by
  have hsettings : overrideSettings (.ofDocuments root documents)
      (Settings.ofEnvironment environment?) = Settings.ofEnvironment environment? := rfl
  have hfields : (Options.ofDocuments root documents).settingsFile? = none
      ∧ (Options.ofDocuments root documents).root? = some root
      ∧ (Options.ofDocuments root documents).openFiles = []
      ∧ (Options.ofDocuments root documents).virtualDocuments = documents :=
    ⟨rfl, rfl, rfl, rfl⟩
  simp only [perform, settingsOfRun, rootOfRun, absolute, Disk.absolute, hroot, buffersOfRun,
    openFiles, baseDirectory, hbuffers, pure_bind, if_true, Except.map, Except.mapError, hsettings,
    hfields]

/-- A named document lies in its directory. -/
theorem exists_location_of_named {base : Path} (habsolute : base.isAbsolute = true)
    (hnamed : Path.Component.parent ∉ base.components) {name : String}
    (hname : IsDocumentName name) :
    ∃ location, Location.ofUrl (Url.virtualUrl (base.join (.ofString name))) = .ok location
      ∧ location.same (base.join (.ofString (name ++ ("." ++ sourceExtension)))) = true
      ∧ location.liesIn base = true := by
  obtain ⟨location, hlocation, hcomponents⟩ :=
    Location.exists_ofUrl_virtualUrl habsolute hnamed hname.entryName
  rw [← Bytes.ofString_append] at hcomponents
  have hfile : Path.IsEntryName (Bytes.ofString (name ++ ("." ++ sourceExtension))) := by
    rw [Bytes.ofString_append]
    exact hname.entryName.append_extension
  have hunder : (base.join (.ofString (name ++ ("." ++ sourceExtension)))).liesIn base = true :=
    Path.liesIn_joinAll (List.forall_mem_singleton.mpr hfile) base
  exact ⟨location, hlocation, Path.same_iff.mpr hcomponents,
    (Path.liesIn_congr hcomponents base).trans hunder⟩

/-- An absolute path is no option. -/
theorem head?_ne_dash {root : String} (h : (Path.ofString root).isAbsolute = true) :
    root.toList.head? ≠ some '-' := by
  intro hdash
  obtain ⟨rest, hroot⟩ := List.head?_eq_some_iff.mp hdash
  have hbytes : (Path.ofString root).bytes = Text.Utf8.encode ('-' :: rest) := by
    rw [← hroot]
    rfl
  have hhead : (Text.Utf8.encode ('-' :: rest)).head? = some 0x2D := rfl
  rw [Path.isAbsolute, hbytes, hhead] at h
  exact absurd h (by decide)

/-- The report on named documents, whatever the disk answers. -/
theorem exists_report_of_named {σ : Type} (disk : Disk (StateM σ)) (s : σ)
    (environment? : Option String) {root : String}
    (habsolute : (Path.ofString root).isAbsolute = true)
    (hnamed : Path.Component.parent ∉ (Path.ofString root).components) {words : List String}
    {documents : List (String × String)} (hwords : NamesDocuments words documents)
    (hnames : ∀ document ∈ documents, IsDocumentName document.1) :
    ∃ (report : Report) (session : Session),
      ((run disk environment? (root :: words)).run s).1 = .ofReport .text report
      ∧ report.sources = session.sources
      ∧ ∀ url, (documents.foldl (openNamed (.ofString root)) .empty).isOpen url = true →
          session.get? url = Survey.documentSource?
            (documents.foldl (openNamed (.ofString root)) .empty).atRest (some (.ofString root))
            session.loader url := by
  have hne : root ≠ "" := Bytes.ofString_ne_nil fun h => by
    rw [Path.isAbsolute, Path.ofString, h] at habsolute
    exact absurd habsolute (by decide)
  have hparse := parse_namesDocuments (head?_ne_dash habsolute) hne hwords
    fun document hdocument => Bytes.ofString_ne_nil (hnames document hdocument).entryName.1
  have hbuffers := openVirtualDocuments_eq habsolute hnamed .empty hnames
  have hnew : (Workspace.ofSettings (Settings.ofEnvironment environment?)).session? = none := rfl
  obtain ⟨session, hsession, hget⟩ := Workspace.get?_reconcile_open_of_inactive disk
    (some (.ofString root)) (documents.foldl (openNamed (.ofString root)) .empty) hnew s
  rw [Workspace.usedRoot_of_isAbsolute disk habsolute] at hget
  generalize hanswer : ((Workspace.ofSettings (Settings.ofEnvironment environment?)).reconcile disk
    (documents.foldl (openNamed (.ofString root)) .empty).atRest (some (.ofString root))).run s
      = answer at hsession
  have hperform : (perform disk environment?
      (.ofDocuments (.ofString root) (documents.map givenDocument))).run s
        = (.ok (.of session answer.1.2), answer.2) := by
    rw [perform_of_root disk environment? habsolute hbuffers, StateT.run_bind, hanswer]
    obtain ⟨⟨workspace, summary⟩, after⟩ := answer
    change (Except.ok (Report.of (workspace.session?.getD _) summary), after) = _
    dsimp only at hsession
    rw [hsession]
    rfl
  refine ⟨.of session answer.1.2, session, ?_, rfl, hget⟩
  rw [run, hparse]
  dsimp only
  rw [StateT.run_bind, hperform]
  rfl

/-- **Named documents land where they are named.** Take a directory whose path is absolute and goes
up nowhere.
- Every name of a document there, whatever characters it is made of, gives the URL of a virtual
  document that lies in the directory under the name with the extension of sources.
- The command that is given this directory as its root and documents by such names reports for each
  of them, unless a later one has the same name, a source with just that URL, location and text. It
  does so on any disk, for any text, and however the names are spread over words. -/
theorem run_namedDocuments :
    (∀ (base : Path) (name : String), base.isAbsolute = true →
      Path.Component.parent ∉ base.components → IsDocumentName name →
        ∃ url location, urlOfVirtual base name = .ok url ∧ Location.isVirtual url = true
          ∧ Location.ofUrl url = .ok location
          ∧ location.same (base.join (.ofString (name ++ ("." ++ sourceExtension)))) = true)
    ∧ ∀ {σ : Type} (disk : Disk (StateM σ)) (s : σ) (environment? : Option String) (root : String)
        (words : List String) (documents : List (String × String)),
        (Path.ofString root).isAbsolute = true →
        Path.Component.parent ∉ (Path.ofString root).components →
        NamesDocuments words documents → (∀ document ∈ documents, IsDocumentName document.1) →
          ∃ report, ((run disk environment? (root :: words)).run s).1 = .ofReport .text report
            ∧ ∀ before name text later, documents = before ++ (name, text) :: later →
                (∀ document ∈ later, document.1 ≠ name) →
                  ∃ source ∈ report.sources, urlOfVirtual (.ofString root) name = .ok source.url
                    ∧ source.origin = .inMemory ∧ source.content = text
                    ∧ source.location.same ((Path.ofString root).join
                        (.ofString (name ++ ("." ++ sourceExtension)))) = true := by
  refine ⟨fun base name habsolute hnamed hname => ?_,
    fun disk s environment? root words documents habsolute hnamed hwords hnames => ?_⟩
  · obtain ⟨location, hlocation, hsame, -⟩ := exists_location_of_named habsolute hnamed hname
    exact ⟨_, location, urlOfVirtual_eq habsolute hnamed hname, Url.isVirtual_virtualUrl _,
      hlocation, hsame⟩
  · obtain ⟨report, session, hrun, hsources, hget⟩ :=
      exists_report_of_named disk s environment? habsolute hnamed hwords hnames
    refine ⟨report, hrun, ?_⟩
    rintro before name text later rfl hother
    have hname : IsDocumentName name := hnames (name, text) (by simp)
    obtain ⟨location, hlocation, hsame, hunder⟩ :=
      exists_location_of_named habsolute hnamed hname
    have htext := text?_foldl_openNamed habsolute hnames hother .empty
    have hsource := hget _ (Buffers.isOpen_of_text? htext)
    rw [Survey.documentSource?_of_text? session.loader htext hlocation] at hsource
    exact ⟨_, hsources ▸ List.mem_of_find?_eq_some (hsource.trans (if_pos hunder)),
      urlOfVirtual_eq habsolute hnamed hname, rfl, rfl, hsame⟩

/-- Three documents, two of one name, under a directory that is not there; the names look like an
option, an escape, a query and a drive. -/
theorem run_namedDocuments_awkward :
    let root := "/C|/a b"
    let words := ["--virtual=-x=a=b", "--virtual", "c%2F#?\\:=class C = D", "--virtual=-x=2"]
    let disk : Disk (StateM Unit) := FileSystem.empty.atRest
    ∃ report, ((run disk none (root :: words)).run ()).1 = .ofReport .text report
      ∧ (∃ source ∈ report.sources, source.origin = .inMemory ∧ source.content = "class C = D"
          ∧ source.location.same (.ofString "/C|/a b/c%2F#?\\:.groovy") = true)
      ∧ ∃ source ∈ report.sources, source.origin = .inMemory ∧ source.content = "2"
          ∧ source.location.same (.ofString "/C|/a b/-x.groovy") = true := by
  intro root words disk
  let documents := [("-x", "a=b"), ("c%2F#?\\:", "class C = D"), ("-x", "2")]
  have hwords : NamesDocuments words documents := by
    have hspelled : words = [joinedWord .virtualDocument (givenDocument ("-x", "a=b")),
        word .virtualDocument, givenDocument ("c%2F#?\\:", "class C = D"),
        joinedWord .virtualDocument (givenDocument ("-x", "2"))] := by
      decide
    rw [hspelled]
    exact .joined _ (.apart _ (by decide) (.joined _ .nil))
  have hnames : ∀ document ∈ documents, IsDocumentName document.1 := by
    have hdecided : ∀ document ∈ documents,
        Path.IsEntryName (Bytes.ofString document.1) ∧ '=' ∉ document.1.toList := by
      decide
    exact fun document hdocument =>
      ⟨(hdecided document hdocument).1, (hdecided document hdocument).2⟩
  have hplaces : ∀ name ∈ ["-x", "c%2F#?\\:"],
      (Path.ofString root).join (.ofString (name ++ ("." ++ sourceExtension)))
        = .ofString ("/C|/a b/" ++ name ++ ".groovy") := by
    decide
  obtain ⟨report, hrun, hreported⟩ := run_namedDocuments.2 disk () none root words documents
    (by decide) (by decide) hwords hnames
  refine ⟨report, hrun, ?_, ?_⟩
  · obtain ⟨source, hsource, -, horigin, hcontent, hsame⟩ :=
      hreported [("-x", "a=b")] _ _ [("-x", "2")] rfl (by decide)
    rw [hplaces _ (by simp)] at hsame
    exact ⟨source, hsource, horigin, hcontent, hsame⟩
  · obtain ⟨source, hsource, -, horigin, hcontent, hsame⟩ :=
      hreported [("-x", "a=b"), ("c%2F#?\\:", "class C = D")] _ _ [] rfl (by simp)
    rw [hplaces _ (by simp)] at hsame
    exact ⟨source, hsource, horigin, hcontent, hsame⟩

/-- A name that begins with a dash is taken for an option where it stands in a word of its own, and
then nothing is reported. -/
theorem run_dashed_document :
    let root := "/w"
    let disk : Disk (StateM Unit) := (FileSystem.empty.makeDirectory (.ofString root)).atRest
    let outcome := ((run disk none [root, "--virtual", "-x=1"]).run ()).1
    (Path.ofString root).isAbsolute = true
      ∧ Path.Component.parent ∉ (Path.ofString root).components ∧ IsDocumentName "-x"
      ∧ outcome = .failure "unexpected argument '-x' found"
      ∧ ¬∃ report, outcome = .ofReport .text report
          ∧ ∃ source ∈ report.sources, source.origin = .inMemory ∧ source.content = "1"
            ∧ source.location.same (.ofString "/w/-x.groovy") = true := by
  intro root disk outcome
  have hfailed : outcome = .failure "unexpected argument '-x' found" := by decide +kernel
  refine ⟨by decide, by decide, ⟨by decide, by decide⟩, hfailed, ?_⟩
  rintro ⟨report, hreport, -⟩
  have hcode : (Outcome.ofReport .text report).code ≤ 1 := by
    rw [Outcome.ofReport]
    dsimp only
    split_ifs
    · decide
    · decide
  rw [← hreport, hfailed] at hcode
  exact absurd hcode (by decide)

end CommandLine

end WorkspaceSession
