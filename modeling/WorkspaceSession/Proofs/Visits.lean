/-
Every place once.

A system lists an entry of a directory once, and so a walk comes to no place twice: what lies below
one entry is named through it, and two names that differ stay different at their position however
much is joined behind them. The source files of a workspace are therefore different paths, and as no
two of them share a URL, what a survey finds is one source for each document at most.
-/
import Mathlib.Data.List.Flatten
import WorkspaceSession.Proofs.OpenFiles
import WorkspaceSession.Proofs.Settlements

set_option autoImplicit false

namespace WorkspaceSession

/-! ## Listings without repetition -/

/-- The disk lists no entry of a directory twice. -/
def Disk.ListsOnce (disk : Disk Id) : Prop :=
  ∀ {path entries}, (disk.entries path).run = .ok entries → (entries.map DirEntry.name).Nodup

namespace FileSystem

/-- The names that a directory shows are the last names of the places in it. -/
theorem map_name_entriesAt {fs : FileSystem} {place : Place} :
    (fs.entriesAt place).map DirEntry.name
      = fs.nodes.filterMap fun entry =>
          if entry.1.dropLast = place then entry.1.getLast? else none := by
  rw [entriesAt, List.map_filterMap]
  refine List.filterMap_congr fun entry _ => ?_
  obtain ⟨p, node⟩ := entry
  dsimp only
  cases p.getLast? with
  | none => simp
  | some name =>
    dsimp only
    split_ifs
    · rfl
    · rfl

/-- A file system at rest whose places are all different lists nothing twice. -/
theorem listsOnce_atRest {fs : FileSystem} (h : (fs.nodes.map Prod.fst).Nodup) :
    (fs.atRest : Disk Id).ListsOnce := by
  intro path entries hentries
  obtain ⟨target, -, rfl | ⟨place, rfl⟩⟩ := entries_eq_ok hentries
  · exact List.nodup_nil
  · rw [map_name_entriesAt]
    refine List.pairwise_filterMap.mpr ((List.pairwise_map.mp h).imp ?_)
    intro entry other hne name hname name' hname' heq
    -- A place is its directory and its last name.
    split_ifs at hname hname' with hdirectory hdirectory'
    obtain rfl := heq
    refine hne ?_
    rw [← List.dropLast_append_getLast? name hname, ← List.dropLast_append_getLast? name hname',
      hdirectory, hdirectory']

end FileSystem

namespace Survey

/-! ## One walk -/

variable {disk : Disk Id}

/-- The place that is met, if it is one. -/
def Meeting.place? : Meeting → Option Path
  | .place path _ => some path
  | .refusal _ _ => none

variable (disk) in
/-- The places that a walk comes to, in order. -/
def places (depth : Nat) (path : Path) (kind : NodeKind) : List Path :=
  (meetings disk depth path kind).filterMap Meeting.place?

theorem places_succ (depth : Nat) (path : Path) (kind : NodeKind) :
    places disk (depth + 1) path kind
      = path ::
        if kind = .directory then
          match (disk.entries path).run with
          | .error _ => []
          | .ok entries => entries.flatMap fun entry =>
              places disk depth (path.join ⟨entry.name⟩) entry.kind
        else [] := by
  have hhere : Meeting.place? (.place path kind) = some path := rfl
  rw [places, meetings_succ, List.filterMap_cons_some hhere]
  congr 1
  split_ifs
  · cases (disk.entries path).run with
    | error e => rfl
    | ok entries => exact List.filterMap_flatMap
  · rfl

theorem below_of_mem_places (hdisk : disk.Lawful) {depth : Nat} {path p : Path} {kind : NodeKind}
    (h : p ∈ places disk depth path kind) : path.Below p := by
  induction depth generalizing path kind with
  | zero => exact absurd h List.not_mem_nil
  | succ depth ih =>
    rw [places_succ] at h
    rcases List.mem_cons.mp h with rfl | h
    · exact ⟨[], by simp, rfl⟩
    · split_ifs at h
      · cases hentries : (disk.entries path).run with
        | error e =>
          rw [hentries] at h
          exact absurd h List.not_mem_nil
        | ok entries =>
          rw [hentries] at h
          obtain ⟨entry, hentry, h⟩ := List.mem_flatMap.mp h
          exact (ih h).of_join (hdisk.entryName hentries entry hentry)
      · exact absurd h List.not_mem_nil

/-- What lies below an entry has the name of the entry behind the directory. -/
theorem components_of_below_join {directory p : Path} {name : Bytes}
    (hname : Path.IsEntryName name) (h : (directory.join ⟨name⟩).Below p) :
    ∃ rest, p.components = directory.components ++ .name name :: rest := by
  obtain ⟨names, hnames, rfl⟩ := h
  refine ⟨names.map .name, ?_⟩
  rw [Path.components_joinAll hnames, Path.components_join hname, List.append_assoc,
    List.singleton_append]

/-- **A walk comes to no place twice.** -/
theorem nodup_places (hdisk : disk.Lawful) (hlists : disk.ListsOnce) (depth : Nat) (path : Path)
    (kind : NodeKind) : (places disk depth path kind).Nodup := by
  induction depth generalizing path kind with
  | zero => exact List.nodup_nil
  | succ depth ih =>
    rw [places_succ]
    split_ifs
    · cases hentries : (disk.entries path).run with
      | error e => exact List.nodup_singleton path
      | ok entries =>
        have hnamed : ∀ entry ∈ entries, ∀ {p},
            p ∈ places disk depth (path.join ⟨entry.name⟩) entry.kind →
            ∃ rest, p.components = path.components ++ .name entry.name :: rest :=
          fun entry hentry _ hp => components_of_below_join
            (hdisk.entryName hentries entry hentry) (below_of_mem_places hdisk hp)
        refine List.nodup_cons.mpr ⟨fun hagain => ?_, List.nodup_flatMap.mpr ⟨?_, ?_⟩⟩
        · obtain ⟨entry, hentry, hp⟩ := List.mem_flatMap.mp hagain
          obtain ⟨rest, hrest⟩ := hnamed entry hentry hp
          exact nomatch List.append_cancel_left ((List.append_nil _).trans hrest)
        · exact fun entry _ => ih _ entry.kind
        · refine (List.pairwise_map.mp (hlists hentries)).imp_of_mem ?_
          intro entry other hentry hother hne p hp hp'
          obtain ⟨rest, hrest⟩ := hnamed entry hentry hp
          obtain ⟨rest', hrest'⟩ := hnamed other hother hp'
          have hsame := List.append_cancel_left (hrest.symm.trans hrest')
          exact hne (Path.Component.name.inj (List.cons.inj hsame).1)
    · exact List.nodup_singleton path

/-- The source files that a survey's walk comes to are different. -/
theorem nodup_sourceFiles (hdisk : disk.Lawful) (hlists : disk.ListsOnce) (root : Path) :
    (sourceFiles disk root).Nodup := by
  have hplaces : ((rootMeetings disk root).filterMap Meeting.place?).Nodup := by
    unfold rootMeetings
    cases (disk.kind? root).run with
    | none => exact List.nodup_nil
    | some target =>
      rcases (disk.ownKind root).run with e | kind
      · exact List.nodup_nil
      · exact nodup_places hdisk hlists maxDepth root _
  rw [List.filterMap_eq_flatMap_toList] at hplaces
  refine hplaces.sublist (List.Sublist.flatMap_right _ fun meeting _ => ?_)
  cases meeting with
  | refusal path e => exact List.Sublist.refl _
  | place path kind =>
    dsimp only
    split_ifs
    · exact List.Sublist.refl _
    · exact List.nil_sublist _

/-! ## One survey -/

variable {editor : Editor Id}

/-- **One source for each document.** The sources that a survey finds are those of different
documents. -/
theorem nodup_urls_sources_run (hdisk : disk.Lawful) (hlists : disk.ListsOnce)
    (heditor : editor.Consistent) (hopen : editor.openUrls.run.Nodup)
    (changed? : Option (List Url)) (root? : Option Path) (loader : Loader) :
    ((sources (run disk editor changed? root? loader).run).map Source.url).Nodup := by
  have hfiles : ∀ root, ((sourceFiles disk root).filterMap
      (fileSource? disk editor changed? loader)).Pairwise fun s t => s.url ≠ t.url := by
    intro root
    refine List.pairwise_filterMap.mpr ?_
    refine (nodup_sourceFiles hdisk hlists root).imp_of_mem ?_
    intro p q hp hq hne s hs t ht heq
    obtain ⟨url, bytes, hurl, -, -, -, rfl⟩ := fileSource?_eq_some_iff.mp hs
    obtain ⟨url', bytes', hurl', -, -, -, rfl⟩ := fileSource?_eq_some_iff.mp ht
    obtain rfl : url = url' := heq
    exact hne ((sourceFile_of_mem_sourceFiles hp).unique hdisk
      (sourceFile_of_mem_sourceFiles hq) hurl hurl')
  have hdocuments : (editor.openUrls.run.filterMap fun url =>
      if isAbout changed? url then documentSource? editor root? loader url else none).Pairwise
        fun s t => s.url ≠ t.url := by
    refine List.pairwise_filterMap.mpr (hopen.imp ?_)
    intro url url' hne s hs t ht
    split_ifs at hs ht
    rwa [url_of_documentSource? editor root? loader hs,
      url_of_documentSource? editor root? loader ht]
  rw [run_run, sources, List.filterMap_append]
  refine List.pairwise_map.mpr (List.pairwise_append.mpr ⟨?_, ?_, ?_⟩)
  · cases root? with
    | none => exact List.Pairwise.nil
    | some root =>
      change (sources (files disk editor changed? loader root).run).Pairwise _
      rw [sources_files]
      exact hfiles root
  · change (sources (documents editor changed? root? loader).run).Pairwise _
    rw [sources_documents]
    exact hdocuments
  · -- What was found in a file is closed, and what was found in a buffer is open.
    intro s hs t ht heq
    have hclosed : (editor.isOpen s.url).run = false := by
      cases root? with
      | none => exact absurd hs List.not_mem_nil
      | some root =>
        change s ∈ sources (files disk editor changed? loader root).run at hs
        rw [sources_files, List.mem_filterMap] at hs
        obtain ⟨path, -, hs⟩ := hs
        obtain ⟨url, bytes, -, hclosed, -, -, rfl⟩ := fileSource?_eq_some_iff.mp hs
        exact hclosed
    have hlisted : t.url ∈ editor.openUrls.run := by
      change t ∈ sources (documents editor changed? root? loader).run at ht
      rw [sources_documents, List.mem_filterMap] at ht
      obtain ⟨url, hurl, ht⟩ := ht
      split_ifs at ht
      rwa [url_of_documentSource? editor root? loader ht]
    rw [heq, (heditor t.url).mp hlisted] at hclosed
    cases hclosed

end Survey

end WorkspaceSession
