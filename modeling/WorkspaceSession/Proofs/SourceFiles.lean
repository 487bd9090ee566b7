/-
The source files of a workspace.

What the disk contributes to a session is, for each document, at most one file: the source file of
that URL, if the walk comes to it and it can be read. `Survey.contribution` computes it from the
walk, where a later file wins over an earlier one, for any disk that answers the same question
always in the same way. On a lawful disk there is nothing to win: `SourceFile.unique` says that no
two source files share a URL, and so `Survey.contribution_eq_some_iff` describes the contribution
without the walk and its order.
-/
import WorkspaceSession.Proofs.Walk

set_option autoImplicit false

namespace WorkspaceSession

namespace FileSystem

/-! ## File systems are lawful -/

/-- A path that is followed is not too long. -/
theorem length_le_of_lookup {fs : FileSystem} {followLast : Bool} {path : Path} {target : Target}
    (h : fs.lookup followLast path = .ok target) : path.bytes.length ≤ maxPathLength := by
  refine Nat.le_of_not_lt fun hlong => ?_
  rw [lookup] at h
  split_ifs at h

/-- A directory is listed where its path leads, unless it is the removed one. -/
theorem entries_eq_ok {fs : FileSystem} {path : Path} {entries : List DirEntry}
    (h : fs.entries path = .ok entries) :
    ∃ target, fs.lookup true path = .ok target
      ∧ (entries = [] ∨ ∃ place, entries = fs.entriesAt place) := by
  unfold FileSystem.entries at h
  cases hlookup : fs.lookup true path with
  | error e =>
    rw [hlookup] at h
    cases h
  | ok target =>
    rw [hlookup] at h
    refine ⟨target, rfl, ?_⟩
    cases target with
    | removedDirectory => exact Or.inl (Except.ok.inj h).symm
    | place place =>
      simp only [bind, Except.bind] at h
      cases hnode : fs.node? place with
      | none =>
        rw [hnode] at h
        cases h
      | some node =>
        rw [hnode] at h
        cases node with
        | directory => exact Or.inr ⟨place, (Except.ok.inj h).symm⟩
        | file content => cases h
        | link target => cases h

theorem exists_mem_nodes_of_mem_entriesAt {fs : FileSystem} {place : Place} {entry : DirEntry}
    (h : entry ∈ fs.entriesAt place) : ∃ node ∈ fs.nodes, entry.name ∈ node.1 := by
  rw [entriesAt, List.mem_filterMap] at h
  obtain ⟨⟨p, node⟩, hmem, hentry⟩ := h
  dsimp only at hentry
  cases hlast : p.getLast? with
  | none =>
    rw [hlast] at hentry
    exact nomatch hentry
  | some name =>
    rw [hlast] at hentry
    dsimp only at hentry
    split_ifs at hentry
    rw [← Option.some.inj hentry]
    exact ⟨_, hmem, List.mem_of_getLast? hlast⟩

/-- A file system at rest keeps what every system promises, if its places are made of names that
entries can have. -/
theorem lawful_atRest {fs : FileSystem}
    (h : ∀ node ∈ fs.nodes, ∀ name ∈ node.1, Path.IsEntryName name) :
    (fs.atRest : Disk Id).Lawful where
  entryName := by
    intro path entries hentries entry hentry
    obtain ⟨target, -, rfl | ⟨place, rfl⟩⟩ := entries_eq_ok hentries
    · exact absurd hentry List.not_mem_nil
    · obtain ⟨node, hnode, hname⟩ := exists_mem_nodes_of_mem_entriesAt hentry
      exact h node hnode entry.name hname
  pathLimit := by
    intro path entries hentries
    obtain ⟨target, hlookup, -⟩ := entries_eq_ok hentries
    exact length_le_of_lookup hlookup

end FileSystem

/-! ## Source files -/

/-- A source file of a workspace: its name has the source extension, and it is a regular file below
the root or a link there that leads to one. -/
structure SourceFile (disk : Disk Id) (root path : Path) : Prop where
  /-- The name of the file. -/
  extension : path.hasExtension sourceExtension = true
  /-- The file, or a link to it, lies below the root. -/
  reached : Survey.Reaches disk root path .file
    ∨ Survey.Reaches disk root path .link ∧ (disk.isFile path).run = true

theorem SourceFile.exists_reaches {disk : Disk Id} {root path : Path}
    (h : SourceFile disk root path) : ∃ kind, Survey.Reaches disk root path kind := by
  rcases h.reached with hfile | ⟨hlink, -⟩
  · exact ⟨_, hfile⟩
  · exact ⟨_, hlink⟩

/-- Below a relative root no file has a URL. -/
theorem SourceFile.isAbsolute_root {disk : Disk Id} (hdisk : disk.Lawful) {root p : Path}
    {url : Url} (hp : SourceFile disk root p) (hurl : Url.ofFilePath? p = some url) :
    root.isAbsolute = true := by
  obtain ⟨kind, hreached⟩ := hp.exists_reaches
  obtain ⟨names, hnames, rfl⟩ := hreached.exists_names hdisk
  rw [← Path.isAbsolute_joinAll hnames]
  exact (Url.ofFilePath?_eq_some.mp hurl).1

/-- **No two source files of a workspace share a URL.** -/
theorem SourceFile.unique {disk : Disk Id} (hdisk : disk.Lawful) {root p q : Path} {url : Url}
    (hp : SourceFile disk root p) (hq : SourceFile disk root q)
    (hpUrl : Url.ofFilePath? p = some url) (hqUrl : Url.ofFilePath? q = some url) : p = q := by
  obtain ⟨kind, hp⟩ := hp.exists_reaches
  obtain ⟨kind', hq⟩ := hq.exists_reaches
  obtain ⟨names, hnames, rfl⟩ := hp.exists_names hdisk
  obtain ⟨names', hnames', rfl⟩ := hq.exists_names hdisk
  -- Both paths are the root with names joined to it, and the names are what is left of the
  -- components behind those of the root.
  have hcomponents := Url.components_eq_of_ofFilePath? hpUrl hqUrl
  rw [Path.components_joinAll hnames, Path.components_joinAll hnames'] at hcomponents
  have hmap := List.append_cancel_left hcomponents
  have hinj : ∀ a b, Path.Component.name a = .name b → a = b := fun _ _ => Path.Component.name.inj
  rw [(List.map_inj_right hinj).mp hmap]

namespace Survey

variable (disk : Disk Id)

theorem isSourceFile_eq_true_iff {path : Path} {kind : NodeKind} :
    (isSourceFile disk path kind).run = true
      ↔ path.hasExtension sourceExtension = true
        ∧ (kind = .file ∨ kind = .link ∧ (disk.isFile path).run = true) := by
  unfold isSourceFile
  by_cases hextension : path.hasExtension sourceExtension = true
  · rw [if_pos hextension]
    cases kind with
    | file => simp [hextension]
    | link => simp [hextension]
    | directory => simp
    | other => simp
  · rw [if_neg hextension]
    simp [hextension]

/-- The source files that a survey's walk comes to, in order. -/
def sourceFiles (root : Path) : List Path :=
  (rootMeetings disk root).flatMap fun
    | .place path kind => if (isSourceFile disk path kind).run then [path] else []
    | .refusal _ _ => []

theorem sourceFile_of_mem_sourceFiles {disk : Disk Id} {root path : Path}
    (h : path ∈ sourceFiles disk root) : SourceFile disk root path := by
  obtain ⟨meeting, hmeeting, hpath⟩ := List.mem_flatMap.mp h
  cases meeting with
  | refusal p e => exact absurd hpath List.not_mem_nil
  | place p k =>
    dsimp only at hpath
    split_ifs at hpath with hsource
    · obtain rfl := List.mem_singleton.mp hpath
      obtain ⟨hextension, hkind⟩ := (isSourceFile_eq_true_iff disk).mp hsource
      have hreached := reaches_of_mem_rootMeetings hmeeting
      refine ⟨hextension, ?_⟩
      rcases hkind with rfl | ⟨rfl, hfile⟩
      · exact Or.inl hreached
      · exact Or.inr ⟨hreached, hfile⟩
    · exact absurd hpath List.not_mem_nil

/-- The walk comes to all source files. -/
theorem mem_sourceFiles {disk : Disk Id} (hdisk : disk.Lawful) {root : Path}
    (hroot : root.bytes ≠ []) {path : Path} :
    path ∈ sourceFiles disk root ↔ SourceFile disk root path := by
  refine ⟨sourceFile_of_mem_sourceFiles, ?_⟩
  rintro ⟨hextension, hreached⟩
  obtain ⟨kind, hkind, hreached⟩ : ∃ kind,
      (kind = .file ∨ kind = .link ∧ (disk.isFile path).run = true)
        ∧ Reaches disk root path kind := by
    rcases hreached with hfile | ⟨hlink, hfile⟩
    · exact ⟨.file, Or.inl rfl, hfile⟩
    · exact ⟨.link, Or.inr ⟨rfl, hfile⟩, hlink⟩
  have hsource := (isSourceFile_eq_true_iff disk).mpr ⟨hextension, hkind⟩
  have hmet := (mem_rootMeetings hdisk hroot).mpr hreached
  refine List.mem_flatMap.mpr ⟨.place path kind, hmet, ?_⟩
  dsimp only
  rw [if_pos hsource]
  exact List.mem_singleton_self path

/-! ## Contributions -/

/-- What a source file contributes for a document. -/
def contributionOf (url : Url) (path : Path) : Option (Path × Bytes) :=
  if Url.ofFilePath? path = some url then
    (disk.read path).run.toOption.map fun bytes => (path, bytes)
  else none

/-- What the disk contributes for a document: a source file of its URL and the content of the file.
The walk adds one after the other, so the last one counts. -/
def contribution (root : Path) (url : Url) : Option (Path × Bytes) :=
  (sourceFiles disk root).reverse.findSome? (contributionOf disk url)

theorem contributionOf_eq_some_iff {url : Url} {path p : Path} {bytes : Bytes} :
    contributionOf disk url path = some (p, bytes)
      ↔ p = path ∧ Url.ofFilePath? p = some url ∧ (disk.read p).run = .ok bytes := by
  rw [contributionOf]
  split_ifs with hurl
  · cases hread : (disk.read path).run with
    | error e =>
      constructor
      · exact fun h => nomatch h
      · rintro ⟨rfl, -, h⟩
        exact nomatch hread.symm.trans h
    | ok content =>
      constructor
      · rintro ⟨⟩
        exact ⟨rfl, hurl, hread⟩
      · rintro ⟨rfl, -, h⟩
        rw [hread] at h
        rw [Except.ok.inj h]
        rfl
  · constructor
    · exact fun h => nomatch h
    · rintro ⟨rfl, h, -⟩
      exact absurd h hurl

/-- **The contribution of a lawful disk** for a document is the source file of its URL, if it can be
read. -/
theorem contribution_eq_some_iff {disk : Disk Id} (hdisk : disk.Lawful) {root p : Path} {url : Url}
    {bytes : Bytes} :
    contribution disk root url = some (p, bytes)
      ↔ SourceFile disk root p ∧ Url.ofFilePath? p = some url
        ∧ (disk.read p).run = .ok bytes := by
  have hmem : ∀ {q}, q ∈ (sourceFiles disk root).reverse → SourceFile disk root q :=
    fun hq => sourceFile_of_mem_sourceFiles (List.mem_reverse.mp hq)
  constructor
  · intro h
    obtain ⟨path, hpath, hcontributed⟩ := List.exists_of_findSome?_eq_some h
    obtain ⟨rfl, hurl, hread⟩ := (contributionOf_eq_some_iff disk).mp hcontributed
    exact ⟨hmem hpath, hurl, hread⟩
  · rintro ⟨hp, hurl, hread⟩
    -- The search finds some file, and no other one than `p` has the URL.
    have habsolute : root.isAbsolute = true := hp.isAbsolute_root hdisk hurl
    have hroot : root.bytes ≠ [] := by
      intro hempty
      rw [Path.isAbsolute, hempty] at habsolute
      exact absurd habsolute (by decide)
    have hsome : (contribution disk root url).isSome = true := by
      rw [contribution, List.findSome?_isSome_iff]
      refine ⟨p, List.mem_reverse.mpr ((mem_sourceFiles hdisk hroot).mpr hp), ?_⟩
      rw [(contributionOf_eq_some_iff disk).mpr ⟨rfl, hurl, hread⟩]
      rfl
    obtain ⟨⟨q, content⟩, hq⟩ := Option.isSome_iff_exists.mp hsome
    obtain ⟨path, hpath, hcontributed⟩ := List.exists_of_findSome?_eq_some hq
    obtain ⟨rfl, hqUrl, hqRead⟩ := (contributionOf_eq_some_iff disk).mp hcontributed
    obtain rfl := (hmem hpath).unique hdisk hp hqUrl hurl
    rw [hq, Except.ok.inj (hread.symm.trans hqRead)]

end Survey

end WorkspaceSession
