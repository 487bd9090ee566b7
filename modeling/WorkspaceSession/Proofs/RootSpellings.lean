/-
Two spellings of one root.

A root may be spelled with `.` and `..` and with slashes that mean nothing. Where no link is on the
way, its lexical normal form names the same directory, and a survey looks at both spellings of a
location by their normal forms. Its walk does not: it joins names to the root as that is spelled and
makes URLs of what comes out. Of this only the components count, so slashes and `.` make no
difference; but a `..` is a component, it stays in the URLs, and an editor's URL never has one.

So the spelling makes no difference exactly if it has the components of its normal form, or if no
file is concerned (`Workspace.reconcile_rootSpelling`). Otherwise no file has the same URL under
both spellings: under the other one it is not refreshed when the editor reports it.

The disk is a file system as a value here, which follows paths as the system does. It answers alike
about a path below the root and the same names below its normal form as long as the longer of the
two is not too long.
-/
import WorkspaceSession.Proofs.FollowedPaths
import WorkspaceSession.Proofs.Settlements

set_option autoImplicit false

namespace WorkspaceSession

namespace Path

/-! ## Names behind two spellings -/

theorem map_name_injective {names names' : List Bytes}
    (h : names.map Component.name = names'.map Component.name) : names = names' :=
  (List.map_inj_right fun _ _ => Component.name.inj).mp h

/-- Names are read off a path behind its base. -/
theorem names_eq_of_joinAll_eq {base : Path} {names names' : List Bytes}
    (hnames : ∀ name ∈ names, IsEntryName name) (hnames' : ∀ name ∈ names', IsEntryName name)
    (h : base.joinAll names = base.joinAll names') : names = names' := by
  have hcomponents := congrArg components h
  rw [components_joinAll hnames, components_joinAll hnames'] at hcomponents
  exact map_name_injective (List.append_cancel_left hcomponents)

/-- If names behind a path and names behind its normal form have the same components, the names are
the same and the path has the components of its normal form. -/
theorem components_eq_of_joinAll {base : Path} (hbase : base.isAbsolute = true)
    {names names' : List Bytes} (hnames : ∀ name ∈ names, IsEntryName name)
    (hnames' : ∀ name ∈ names', IsEntryName name)
    (h : (base.joinAll names).components = (base.normalize.joinAll names').components) :
    base.components = base.normalize.components := by
  -- By the normal forms the names are the same, and they stand last in both paths.
  have hnormal : (base.joinAll names).normalComponents
      = (base.normalize.joinAll names').normalComponents := by
    rw [normalComponents, normalComponents, h]
  rw [normalComponents_joinAll hnames, normalComponents_joinAll hnames',
    normalComponents_normalize hbase] at hnormal
  rw [components_joinAll hnames, components_joinAll hnames',
    List.append_cancel_left hnormal] at h
  exact List.append_cancel_right h

end Path

/-! ## Disks that answer alike -/

/-- A disk gives the same answers about two paths. -/
structure Disk.Alike (disk : Disk Id) (p q : Path) : Prop where
  /-- They lead to the same. -/
  kind? : disk.kind? p = disk.kind? q
  /-- They name the same. -/
  ownKind : disk.ownKind p = disk.ownKind q
  /-- They have the same entries. -/
  entries : disk.entries p = disk.entries q
  /-- They hold the same. -/
  read : disk.read p = disk.read q

theorem Disk.Alike.symm {disk : Disk Id} {p q : Path} (h : disk.Alike p q) : disk.Alike q p :=
  ⟨h.kind?.symm, h.ownKind.symm, h.entries.symm, h.read.symm⟩

theorem Disk.Alike.isFile {disk : Disk Id} {p q : Path} (h : disk.Alike p q) :
    disk.isFile p = disk.isFile q := by
  rw [Disk.isFile, Disk.isFile, h.kind?]

theorem FileSystem.alike_of_lookup {fs : FileSystem} {p q : Path}
    (h : ∀ followLast, fs.lookup followLast p = fs.lookup followLast q) :
    (fs.atRest : Disk Id).Alike p q := by
  have hkind : ∀ followLast, fs.kindOf followLast p = fs.kindOf followLast q := by
    intro followLast
    rw [kindOf, kindOf, h]
  have hentries : fs.entries p = fs.entries q := by rw [FileSystem.entries, FileSystem.entries, h]
  have hread : fs.read p = fs.read q := by rw [FileSystem.read, FileSystem.read, h]
  exact ⟨congrArg (pure ·.toOption) (hkind true), congrArg pure (hkind false),
    congrArg pure hentries, congrArg pure hread⟩

namespace Survey

variable {disk : Disk Id} {root root' : Path}

/-- A disk answers alike about two roots, and about the same names below them as far as both of them
reach. -/
structure AlikeBelow (disk : Disk Id) (root root' : Path) : Prop where
  /-- At the roots. -/
  atRoot : disk.Alike root root'
  /-- Below. -/
  below : ∀ {names kind}, (∀ name ∈ names, Path.IsEntryName name) →
    Reaches disk root (root.joinAll names) kind → Reaches disk root' (root'.joinAll names) kind →
    disk.Alike (root.joinAll names) (root'.joinAll names)

theorem AlikeBelow.symm (h : AlikeBelow disk root root') : AlikeBelow disk root' root :=
  ⟨h.atRoot.symm, fun hnames hreached hreached' => (h.below hnames hreached' hreached).symm⟩

/-- What one root reaches the other reaches under the same names. -/
theorem AlikeBelow.exists_reaches (h : AlikeBelow disk root root') (hdisk : disk.Lawful) {p : Path}
    {kind : NodeKind} (hp : Reaches disk root p kind) :
    ∃ names, (∀ name ∈ names, Path.IsEntryName name) ∧ p = root.joinAll names
      ∧ Reaches disk root' (root'.joinAll names) kind := by
  have hjoin : ∀ (base : Path) (names : List Bytes) (name : Bytes),
      base.joinAll (names ++ [name]) = (base.joinAll names).join ⟨name⟩ :=
    fun _ _ _ => List.foldl_append
  induction hp with
  | @root target kind leads named =>
    rw [h.atRoot.kind?] at leads
    rw [h.atRoot.ownKind] at named
    have hentered : entered disk root kind = entered disk root' kind := by
      rw [entered, entered, Disk.isDirectory, Disk.isDirectory, h.atRoot.kind?]
    exact ⟨[], by simp, rfl, hentered ▸ .root leads named⟩
  | @entry path entries entry reached listed mem ih =>
    obtain ⟨names, hnames, rfl, hreached⟩ := ih
    have hname := hdisk.entryName listed entry mem
    rw [(h.below hnames reached hreached).entries] at listed
    refine ⟨names ++ [entry.name], ?_, (hjoin ..).symm, ?_⟩
    · intro name hmem
      rcases List.mem_append.mp hmem with hmem | hmem
      · exact hnames name hmem
      · exact List.mem_singleton.mp hmem ▸ hname
    · rw [hjoin]
      exact hreached.entry listed mem

/-- **The same walk.** Under the same names both roots reach the same. -/
theorem AlikeBelow.reaches_iff (h : AlikeBelow disk root root') (hdisk : disk.Lawful)
    {names : List Bytes} (hnames : ∀ name ∈ names, Path.IsEntryName name) {kind : NodeKind} :
    Reaches disk root (root.joinAll names) kind
      ↔ Reaches disk root' (root'.joinAll names) kind := by
  constructor
  · intro hp
    obtain ⟨names', hnames', heq, hreached⟩ := h.exists_reaches hdisk hp
    rwa [Path.names_eq_of_joinAll_eq hnames hnames' heq]
  · intro hp
    obtain ⟨names', hnames', heq, hreached⟩ := h.symm.exists_reaches hdisk hp
    rwa [Path.names_eq_of_joinAll_eq hnames hnames' heq]

/-! ## The same components -/

section

variable (h : AlikeBelow disk root root') (hdisk : disk.Lawful)
  (hcomponents : root.components = root'.components)

include h hdisk hcomponents

/-- A source file below one root is one below the other, the same path in another spelling, and
holds the same. -/
theorem AlikeBelow.exists_sourceFile {p : Path} (hp : SourceFile disk root p) :
    ∃ q, SourceFile disk root' q ∧ p.components = q.components ∧ disk.read p = disk.read q := by
  obtain ⟨kind, hreached⟩ := hp.exists_reaches
  obtain ⟨names, hnames, rfl⟩ := hreached.exists_names hdisk
  have hsame : (root.joinAll names).components = (root'.joinAll names).components := by
    rw [Path.components_joinAll hnames, Path.components_joinAll hnames, hcomponents]
  have hiff : ∀ kind, Reaches disk root (root.joinAll names) kind
      ↔ Reaches disk root' (root'.joinAll names) kind :=
    fun _ => h.reaches_iff hdisk hnames
  have halike := h.below hnames hreached ((hiff kind).mp hreached)
  refine ⟨root'.joinAll names, ⟨?_, ?_⟩, hsame, halike.read⟩
  · rw [← Path.hasExtension_congr hsame]
    exact hp.extension
  · rcases hp.reached with hfile | ⟨hlink, hisFile⟩
    · exact Or.inl ((hiff .file).mp hfile)
    · exact Or.inr ⟨(hiff .link).mp hlink, halike.isFile ▸ hisFile⟩

theorem AlikeBelow.exists_contribution {url : Url} {path : Path} {bytes : Bytes}
    (hcontributed : contribution disk root url = some (path, bytes)) :
    ∃ path', contribution disk root' url = some (path', bytes) := by
  obtain ⟨hsource, hurl, hread⟩ := (contribution_eq_some_iff hdisk).mp hcontributed
  obtain ⟨path', hsource', hsame, hread'⟩ := h.exists_sourceFile hdisk hcomponents hsource
  rw [Url.ofFilePath?_congr hsame] at hurl
  rw [hread'] at hread
  exact ⟨path', (contribution_eq_some_iff hdisk).mpr ⟨hsource', hurl, hread⟩⟩

end

/-- Roots with the same components get the same contents for the same documents. -/
theorem AlikeBelow.map_contribution (h : AlikeBelow disk root root') (hdisk : disk.Lawful)
    (hcomponents : root.components = root'.components) (url : Url) :
    (contribution disk root url).map Prod.snd = (contribution disk root' url).map Prod.snd := by
  have hto : ∀ {path bytes}, contribution disk root url = some (path, bytes) →
      ∃ path', contribution disk root' url = some (path', bytes) :=
    h.exists_contribution hdisk hcomponents
  have hfrom : ∀ {path bytes}, contribution disk root' url = some (path, bytes) →
      ∃ path', contribution disk root url = some (path', bytes) :=
    h.symm.exists_contribution hdisk hcomponents.symm
  ext bytes
  constructor
  · intro hbytes
    obtain ⟨⟨path, bytes⟩, hcontributed, rfl⟩ := Option.map_eq_some_iff.mp hbytes
    obtain ⟨path', hcontributed'⟩ := hto hcontributed
    exact Option.map_eq_some_iff.mpr ⟨_, hcontributed', rfl⟩
  · intro hbytes
    obtain ⟨⟨path, bytes⟩, hcontributed, rfl⟩ := Option.map_eq_some_iff.mp hbytes
    obtain ⟨path', hcontributed'⟩ := hfrom hcontributed
    exact Option.map_eq_some_iff.mpr ⟨_, hcontributed', rfl⟩

/-! ## Other components -/

/-- If any document gets something from both a root and its normal form, the root has the components
of its normal form. -/
theorem components_eq_of_contributions (hdisk : disk.Lawful) {url : Url}
    {found found' : Path × Bytes}
    (h : contribution disk root url = some found)
    (h' : contribution disk root.normalize url = some found') :
    root.components = root.normalize.components := by
  obtain ⟨hsource, hurl, -⟩ := (contribution_eq_some_iff hdisk).mp h
  obtain ⟨hsource', hurl', -⟩ := (contribution_eq_some_iff hdisk).mp h'
  obtain ⟨kind, hreached⟩ := hsource.exists_reaches
  obtain ⟨kind', hreached'⟩ := hsource'.exists_reaches
  obtain ⟨names, hnames, hpath⟩ := hreached.exists_names hdisk
  obtain ⟨names', hnames', hpath'⟩ := hreached'.exists_names hdisk
  have hcomponents := Url.components_eq_of_ofFilePath? hurl hurl'
  rw [hpath, hpath'] at hcomponents
  have hroot := hsource.isAbsolute_root hdisk hurl
  exact Path.components_eq_of_joinAll hroot hnames hnames' hcomponents

end Survey

/-! ## A root and its normal form -/

namespace FileSystem

variable {fs : FileSystem}

/-- **Alike but for the length.** A file system answers alike about a root without links and about
its normal form, and about the same names below them, unless only the longer path is too long. -/
theorem alikeBelow_normalize {root : Path} (hroot : root.isAbsolute = true) {place : Place}
    {target target' : Target} (hfound : fs.lookup true root = .ok target)
    (hfound' : fs.lookup true root.normalize = .ok target')
    (hreal : fs.realPlace? [] root.components = some place)
    (hfits : ∀ names kind, (∀ name ∈ names, Path.IsEntryName name) →
      Survey.Reaches fs.atRest root.normalize (root.normalize.joinAll names) kind →
      (root.normalize.joinAll names).bytes.length ≤ maxPathLength →
      (root.joinAll names).bytes.length ≤ maxPathLength) :
    Survey.AlikeBelow fs.atRest root root.normalize := by
  have hnormal := Path.isAbsolute_normalize hroot
  have halike : ∀ {names : List Bytes}, (∀ name ∈ names, Path.IsEntryName name) →
      ((root.normalize.joinAll names).bytes.length ≤ maxPathLength →
        (root.joinAll names).bytes.length ≤ maxPathLength) →
      (fs.atRest : Disk Id).Alike (root.joinAll names) (root.normalize.joinAll names) := by
    intro names hnames hfit
    have hshorter : (root.normalize.joinAll names).bytes.length
        ≤ (root.joinAll names).bytes.length := by
      rw [← Path.normalize_joinAll hnames hroot]
      exact Path.length_normalize_le ((Path.isAbsolute_joinAll hnames root).trans hroot)
    have htooLong : maxPathLength < (root.joinAll names).bytes.length
        ↔ maxPathLength < (root.normalize.joinAll names).bytes.length := by
      omega
    refine alike_of_lookup fun followLast => ?_
    rw [lookup_joinAll hroot hreal (nul_not_mem_of_lookup hfound) hnames,
      lookup_joinAll hnormal (realPlace?_normalize hroot hreal) (nul_not_mem_of_lookup hfound')
        hnames]
    simp only [htooLong]
  have hnone : ∀ name ∈ ([] : List Bytes), Path.IsEntryName name :=
    fun _ h => absurd h List.not_mem_nil
  refine ⟨halike hnone fun _ => length_le_of_lookup hfound, ?_⟩
  intro names kind hnames _ hreached
  exact halike hnames (hfits names kind hnames hreached)

end FileSystem

/-! ## Two reconciliations -/

/-- What a session says about a document, but for the path that it names. -/
def Session.said (session : Session) (url : Url) : Option (Origin × String) :=
  (session.view url).map Prod.snd

namespace Workspace

variable {disk : Disk Id} {buffers : Buffers} {workspace : Workspace}

theorem get?_sessionAfter_root {root : Path} (hroot : root.isAbsolute = true) (url : Url) :
    (workspace.sessionAfter disk buffers.atRest (some root)).get? url
      = if workspace.Surveys buffers url then
          Survey.fresh disk buffers.atRest (some root) (workspace.base disk).loader url
        else (workspace.base disk).get? url := by
  have hrootPath : (rootPath disk (some root)).run = some root :=
    run_rootPath disk fun _ h => Option.some.inj h ▸ hroot
  rw [get?_sessionAfter_atRest, hrootPath]

/-- What is no file of a closed document does not feel how the root is spelled. -/
theorem get?_sessionAfter_normalize {root : Path} (hroot : root.isAbsolute = true) {url : Url}
    (h : workspace.Surveys buffers url → buffers.isOpen url = true) :
    (workspace.sessionAfter disk buffers.atRest (some root)).get? url
      = (workspace.sessionAfter disk buffers.atRest (some root.normalize)).get? url := by
  rw [get?_sessionAfter_root hroot, get?_sessionAfter_root (Path.isAbsolute_normalize hroot)]
  split_ifs with hsurveys
  · have hlies : ∀ location : Path, location.liesIn root = location.liesIn root.normalize := by
      intro location
      rw [Path.liesIn, Path.liesIn, Path.normalComponents_normalize hroot]
    rw [Survey.fresh_of_isOpen (h hsurveys), Survey.fresh_of_isOpen (h hsurveys)]
    unfold Survey.documentSource?
    simp only [Option.all_some, hlies]
  · rfl

/-- What a session says about a closed document that the reconciliation was about. -/
theorem said_sessionAfter {root : Path} (hroot : root.isAbsolute = true) {url : Url}
    (hsurveys : workspace.Surveys buffers url) (hclosed : buffers.isOpen url = false) :
    (workspace.sessionAfter disk buffers.atRest (some root)).said url
      = ((Survey.contribution disk root url).map Prod.snd).map fun bytes =>
          (.disk, bytes.display) := by
  rw [Session.said, Session.view, get?_sessionAfter_root hroot, if_pos hsurveys,
    Survey.fresh_of_isClosed hclosed, Option.bind_some, Option.map_map, Option.map_map,
    Option.map_map]
  rfl

/-- A document of a closed file has nothing under one of two spellings that have not the same
components. -/
theorem said_sessionAfter_eq_none (hdisk : disk.Lawful) {root : Path}
    (hroot : root.isAbsolute = true)
    (hcomponents : root.components ≠ root.normalize.components) {url : Url}
    (hsurveys : workspace.Surveys buffers url) (hclosed : buffers.isOpen url = false)
    {found : Path × Bytes} (hfound : Survey.contribution disk root.normalize url = some found) :
    (workspace.sessionAfter disk buffers.atRest (some root)).said url = none := by
  rw [said_sessionAfter hroot hsurveys hclosed]
  cases hother : Survey.contribution disk root url with
  | none => rfl
  | some other =>
    exact absurd (Survey.components_eq_of_contributions hdisk hother hfound) hcomponents

section

variable (hdisk : disk.Lawful) {root : Path} (hroot : root.isAbsolute = true)
  (halike : Survey.AlikeBelow disk root root.normalize)

include hdisk hroot halike

/-- Under two spellings with the same components a closed document has the same. -/
theorem said_sessionAfter_normalize (hcomponents : root.components = root.normalize.components)
    {url : Url} (hsurveys : workspace.Surveys buffers url) (hclosed : buffers.isOpen url = false) :
    (workspace.sessionAfter disk buffers.atRest (some root)).said url
      = (workspace.sessionAfter disk buffers.atRest (some root.normalize)).said url := by
  have hnormal := Path.isAbsolute_normalize hroot
  rw [said_sessionAfter hroot hsurveys hclosed, said_sessionAfter hnormal hsurveys hclosed,
    halike.map_contribution hdisk hcomponents]

/-- When the spelling makes no difference. -/
theorem said_sessionAfter_iff :
    (∀ url, (workspace.sessionAfter disk buffers.atRest (some root)).said url
        = (workspace.sessionAfter disk buffers.atRest (some root.normalize)).said url)
      ↔ root.components = root.normalize.components
        ∨ ∀ url, workspace.Surveys buffers url → buffers.isOpen url = false →
            Survey.contribution disk root url = none
              ∧ Survey.contribution disk root.normalize url = none := by
  have hnormal := Path.isAbsolute_normalize hroot
  constructor
  · intro hsaid
    rw [or_iff_not_imp_left]
    intro hcomponents url hsurveys hclosed
    have hurl := hsaid url
    rw [said_sessionAfter hroot hsurveys hclosed,
      said_sessionAfter hnormal hsurveys hclosed] at hurl
    -- If one of them contributed something, so would the other one.
    cases hhere : Survey.contribution disk root url with
    | none =>
      rw [hhere] at hurl
      simpa using hurl.symm
    | some found =>
      cases hthere : Survey.contribution disk root.normalize url with
      | none =>
        rw [hhere, hthere] at hurl
        cases hurl
      | some found' =>
        exact absurd (Survey.components_eq_of_contributions hdisk hhere hthere) hcomponents
  · intro h url
    by_cases hfile : workspace.Surveys buffers url → buffers.isOpen url = true
    · rw [Session.said, Session.view, get?_sessionAfter_normalize hroot hfile]
      rfl
    · obtain ⟨hsurveys, hclosed⟩ := Classical.not_imp.mp hfile
      rw [Bool.not_eq_true] at hclosed
      rcases h with hcomponents | hnone
      · exact said_sessionAfter_normalize hdisk hroot halike hcomponents hsurveys hclosed
      · obtain ⟨hhere, hthere⟩ := hnone url hsurveys hclosed
        rw [said_sessionAfter hroot hsurveys hclosed, said_sessionAfter hnormal hsurveys hclosed,
          hhere, hthere]

end

/-- **Two spellings of one root.** Without links on the way of the root, and with paths below it
that are not too long, reconciling under the root and under its normal form comes to sessions that
say the same about every document exactly if the two have the same components, or if no file of a
closed document that this is about contributes anything. A file below the normal form whose document
is reported is always refreshed there, and under the root exactly in the first case; otherwise its
document has no source there. -/
theorem reconcile_rootSpelling {fs : FileSystem}
    (hentries : ∀ node ∈ fs.nodes, ∀ name ∈ node.1, Path.IsEntryName name) {root : Path}
    (hroot : root.isAbsolute = true) {place : Place}
    (hfound : fs.lookup true root = .ok (.place place))
    (hfound' : fs.lookup true root.normalize = .ok (.place place))
    (hreal : fs.realPlace? [] root.components = some place)
    (hfits : ∀ names kind, (∀ name ∈ names, Path.IsEntryName name) →
      Survey.Reaches fs.atRest root.normalize (root.normalize.joinAll names) kind →
      (root.normalize.joinAll names).bytes.length ≤ FileSystem.maxPathLength →
      (root.joinAll names).bytes.length ≤ FileSystem.maxPathLength)
    (workspace : Workspace) (buffers : Buffers) :
    ∃ session session',
      (workspace.reconcile (fs.atRest : Disk Id) buffers.atRest (some root)).run.1.session?
          = some session
        ∧ (workspace.reconcile (fs.atRest : Disk Id) buffers.atRest
            (some root.normalize)).run.1.session? = some session'
        ∧ ((∀ url, session.said url = session'.said url)
          ↔ root.same root.normalize = true
            ∨ ∀ url, workspace.Surveys buffers url → buffers.isOpen url = false →
                Survey.contribution fs.atRest root url = none
                  ∧ Survey.contribution fs.atRest root.normalize url = none)
        ∧ ∀ path url bytes, SourceFile fs.atRest root.normalize path →
            Url.ofFilePath? path = some url → fs.read path = .ok bytes →
            workspace.Surveys buffers url → buffers.isOpen url = false →
            session'.said url = some (.disk, bytes.display)
              ∧ session.said url
                = if root.same root.normalize then some (.disk, bytes.display) else none := by
  have hdisk : (fs.atRest : Disk Id).Lawful := FileSystem.lawful_atRest hentries
  have hnormal := Path.isAbsolute_normalize hroot
  have halike := FileSystem.alikeBelow_normalize hroot hfound hfound' hreal hfits
  refine ⟨_, _, session?_reconcile .., session?_reconcile .., ?_, ?_⟩
  · rw [Path.same_iff]
    exact said_sessionAfter_iff hdisk hroot halike
  · intro path url bytes hsource hurl hread hsurveys hclosed
    have hcontributed : Survey.contribution fs.atRest root.normalize url = some (path, bytes) :=
      (Survey.contribution_eq_some_iff hdisk).mpr ⟨hsource, hurl, hread⟩
    have hthere :
        (workspace.sessionAfter fs.atRest buffers.atRest (some root.normalize)).said url
          = some (.disk, bytes.display) := by
      rw [said_sessionAfter hnormal hsurveys hclosed, hcontributed]
      rfl
    refine ⟨hthere, ?_⟩
    split_ifs with hcomponents
    · rw [Path.same_iff] at hcomponents
      rw [said_sessionAfter_normalize hdisk hroot halike hcomponents hsurveys hclosed, hthere]
    · exact said_sessionAfter_eq_none hdisk hroot (mt Path.same_iff.mpr hcomponents) hsurveys
        hclosed hcontributed

/-- A changed file is refreshed under a root with a dot and slashes that mean nothing. -/
theorem reconcile_rootSpelling_dotted :
    let root : Path := .ofString "/w//./"
    let url : Url := ⟨"file:///w/A.groovy"⟩
    let fs : FileSystem :=
      FileSystem.empty.writeFile (.ofString "/w/A.groovy") (.ofString "class B")
    let reported : Buffers := Buffers.empty.noteChanged url
    let loader : Loader := ⟨.ofClasspath ⟨[]⟩⟩
    let workspace : Workspace := ⟨⟨[], none⟩, .active ⟨loader.config,
      [.ofDisk url (.ofString "/w//./A.groovy") (.ofString "class A") loader]⟩⟩
    ∃ session, (workspace.reconcile (fs.atRest : Disk Id) reported.atRest
        (some root)).run.1.session? = some session
      ∧ session.said url = some (.disk, "class B") := by
  intro root url fs reported loader workspace
  have hentries : ∀ node ∈ fs.nodes, ∀ name ∈ node.1, Path.IsEntryName name := by decide
  have hmet : (Survey.rootMeetings fs.atRest root.normalize).flatMap
      (Survey.Meeting.elim (fun path _ => [path]) fun path _ => path)
        = [.ofString "/w", .ofString "/w/A.groovy"] := by
    decide +kernel
  have hfits : ∀ names kind, (∀ name ∈ names, Path.IsEntryName name) →
      Survey.Reaches fs.atRest root.normalize (root.normalize.joinAll names) kind →
      (root.normalize.joinAll names).bytes.length ≤ FileSystem.maxPathLength →
      (root.joinAll names).bytes.length ≤ FileSystem.maxPathLength := by
    intro names kind hnames hreached _
    have hmem := (Survey.mem_rootMeetings (FileSystem.lawful_atRest hentries) (by decide)).mpr
      hreached
    have hlisted : root.normalize.joinAll names ∈ [.ofString "/w", .ofString "/w/A.groovy"] := by
      rw [← hmet]
      exact List.mem_flatMap.mpr ⟨_, hmem, List.mem_singleton_self _⟩
    have hnone : root.normalize.joinAll [] = .ofString "/w" := by decide
    have hone : root.normalize.joinAll [.ofString "A.groovy"] = .ofString "/w/A.groovy" := by decide
    have hnames' : ∀ name ∈ [Bytes.ofString "A.groovy"], Path.IsEntryName name := by decide
    rcases List.mem_cons.mp hlisted with heq | hlisted
    · have hshort : names = [] :=
        Path.names_eq_of_joinAll_eq hnames (by decide) (heq.trans hnone.symm)
      rw [hshort]
      decide
    · have heq := (List.mem_singleton.mp hlisted).trans hone.symm
      rw [Path.names_eq_of_joinAll_eq hnames hnames' heq]
      decide
  have hfound : fs.lookup true root = .ok (.place [.ofString "w"]) := rfl
  have hfound' : fs.lookup true root.normalize = .ok (.place [.ofString "w"]) := rfl
  obtain ⟨session, _, hsession, _, _, hrefreshed⟩ :=
    reconcile_rootSpelling hentries (by decide) hfound hfound' (by decide) hfits workspace reported
  have hsource : SourceFile fs.atRest root.normalize (.ofString "/w/A.groovy") :=
    Survey.sourceFile_of_mem_sourceFiles (by decide +kernel)
  obtain ⟨-, hsaid⟩ := hrefreshed _ url (.ofString "class B") hsource (by decide) (by rfl)
    (Or.inr (by decide)) (by decide)
  exact ⟨session, hsession, hsaid.trans (by rfl)⟩

/-- A root with a `..` is not the same as its normal form: its file has another URL, and what is
reported about the file's own one does not refresh it. -/
theorem not_same_under_parent :
    let root : Path := .ofString "/w/x/.."
    let start : FileSystem := FileSystem.empty.makeDirectory (.ofString "/w/x")
    let fs : FileSystem := start.writeFile (.ofString "/w/A.groovy") (.ofString "class A")
    let edited : FileSystem := start.writeFile (.ofString "/w/A.groovy") (.ofString "class B")
    let reported : Buffers := Buffers.empty.noteChanged ⟨"file:///w/A.groovy"⟩
    let after (root : Path) : Option (List (Url × Path × Origin × String)) :=
      ((((ofSettings ⟨[], none⟩).reconcile (fs.atRest : Disk Id) Buffers.empty.atRest
        (some root)).run.1.reconcile (edited.atRest : Disk Id) reported.atRest
          (some root)).run.1.session?).map Session.table
    root.normalize = .ofString "/w"
      ∧ fs.realPlace? [] root.components = some [.ofString "w"]
      ∧ fs.lookup true root = .ok (.place [.ofString "w"])
      ∧ fs.lookup true root.normalize = .ok (.place [.ofString "w"])
      ∧ after root = some [(⟨"file:///w/x/../A.groovy"⟩, .ofString "/w/x/../A.groovy", .disk,
          "class A")]
      ∧ after root.normalize = some [(⟨"file:///w/A.groovy"⟩, .ofString "/w/A.groovy", .disk,
          "class B")] := by
  intro root start fs edited reported after
  exact ⟨by decide, by decide, by rfl, by rfl, by decide +kernel, by decide +kernel⟩

end Workspace

end WorkspaceSession
