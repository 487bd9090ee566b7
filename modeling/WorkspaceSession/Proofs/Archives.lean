/-
What is on a classpath.

A classpath is put together of contributions: that of the library directory, then that of every
entry. A directory contributes the archives directly in it. They are sorted by name, and as no two
entries of a directory have one name, this leaves nothing open: only one list has these elements in
this order (`Classpath.resolve_exact`), whatever order the system lists the directory in. An entry
that names no directory contributes itself or nothing.

Whether a path leads to an archive is asked of the path: it has the extension, and what it leads to
is a regular file. So a link counts as what it leads to.
-/
import WorkspaceSession.Proofs.Enumerations
import WorkspaceSession.Proofs.Visits

set_option autoImplicit false

namespace WorkspaceSession

/-! ## The same disk, listed backwards -/

/-- A disk that lists every directory from its last entry to its first. -/
def Disk.backwards (disk : Disk Id) : Disk Id :=
  { disk with entries := fun path => (disk.entries path).run.map List.reverse }

theorem Disk.reorders_backwards (disk : Disk Id) : disk.Reorders disk.backwards := by
  refine ⟨rfl, rfl, rfl, rfl, fun path => ?_⟩
  change SameListing (disk.entries path).run ((disk.entries path).run.map List.reverse)
  cases (disk.entries path).run with
  | error e => exact .error e
  | ok entries => exact .ok entries.reverse_perm.symm

namespace Classpath

variable (disk : Disk Id)

/-! ## Archives among paths -/

theorem run_leadsToArchive (path : Path) :
    (leadsToArchive disk path).run
      = (path.hasExtension archiveExtension && decide ((disk.kind? path).run = some .file)) := by
  rw [leadsToArchive]
  split_ifs with hextension
  · rw [hextension]
    rfl
  · rw [Bool.not_eq_true] at hextension
    rw [hextension]
    rfl

theorem leadsToArchive_iff (path : Path) :
    (leadsToArchive disk path).run = true
      ↔ path.hasExtension archiveExtension = true ∧ (disk.kind? path).run = some .file := by
  rw [run_leadsToArchive, Bool.and_eq_true, decide_eq_true_eq]

theorem run_archivesAmong (paths : List Path) :
    (archivesAmong disk paths).run = paths.filter fun path => (leadsToArchive disk path).run := by
  induction paths with
  | nil => rfl
  | cons path rest ih =>
    rw [List.filter_cons, ← ih]
    rfl

/-! ## Archives in a directory -/

variable {disk}

/-- Names that are sorted and different stand in strict order. -/
theorem pairwise_lt_mergeSort {names : List Bytes} (h : names.Nodup) :
    (names.mergeSort fun a b => decide (a ≤ b)).Pairwise (· < ·) := by
  have hdifferent : (names.mergeSort fun a b => decide (a ≤ b)).Nodup :=
    (List.mergeSort_perm names _).nodup_iff.mpr h
  refine ((pairwise_mergeSort_names names).and hdifferent).imp ?_
  rintro a b ⟨hle, hne⟩
  by_contra hlt
  exact hne (List.le_antisymm (of_decide_eq_true hle) (List.not_lt.mp hlt))

/-- Exactly the archives that a directory has entries for. -/
theorem mem_archivesOfDirectory_iff {directory path : Path} :
    path ∈ (archivesOfDirectory disk directory).run
      ↔ (disk.kind? directory).run = some .directory
        ∧ ∃ entries, (disk.entries directory).run = .ok entries
          ∧ ∃ entry ∈ entries, path = directory.join ⟨entry.name⟩
            ∧ path.hasExtension archiveExtension = true
            ∧ (disk.kind? path).run = some .file := by
  have hdirectory : (disk.isDirectory directory).run = true
      ↔ (disk.kind? directory).run = some .directory := decide_eq_true_iff
  rw [run_archivesOfDirectory, ← hdirectory]
  split_ifs with hisDirectory
  · cases hentries : (disk.entries directory).run with
    | error e => simp
    | ok entries =>
      dsimp only
      rw [run_archivesAmong, List.mem_filter, leadsToArchive_iff, List.mem_map]
      simp only [List.mem_mergeSort, List.mem_map, exists_exists_and_eq_and]
      constructor
      · rintro ⟨⟨entry, hentry, rfl⟩, harchive⟩
        exact ⟨hisDirectory, entries, rfl, entry, hentry, rfl, harchive⟩
      · rintro ⟨-, listed, hlisted, entry, hentry, rfl, harchive⟩
        obtain rfl := Except.ok.inj hlisted
        exact ⟨⟨entry, hentry, rfl⟩, harchive⟩
  · simp [hisDirectory]

/-- The archives of a directory stand in the order of their names, each of them once. -/
theorem pairwise_archivesOfDirectory (hdisk : disk.Lawful) (honce : disk.ListsOnce)
    (directory : Path) :
    (archivesOfDirectory disk directory).run.Pairwise fun a b => a.fileName? < b.fileName? := by
  rw [run_archivesOfDirectory]
  split_ifs
  · cases hentries : (disk.entries directory).run with
    | error e => exact List.Pairwise.nil
    | ok entries =>
      dsimp only
      rw [run_archivesAmong]
      refine List.Pairwise.filter _ (List.pairwise_map.mpr ?_)
      refine (pairwise_lt_mergeSort (honce hentries)).imp_of_mem ?_
      intro a b ha hb hlt
      have hname : ∀ name ∈ (entries.map DirEntry.name).mergeSort fun a b => decide (a ≤ b),
          Path.IsEntryName name := by
        intro name hname
        obtain ⟨entry, hentry, rfl⟩ := List.mem_map.mp (List.mem_mergeSort.mp hname)
        exact hdisk.entryName hentries entry hentry
      rw [Path.fileName?_join (hname a ha), Path.fileName?_join (hname b hb)]
      exact hlt
  · exact List.Pairwise.nil

/-! ## Contributions -/

/-- An entry that ends in the wildcard stands for the directory in front of it. -/
theorem archivesOfEntry_push (text : String) :
    archivesOfEntry disk (text.push wildcard) = archivesOfDirectory disk (.ofString text) := by
  rw [archivesOfEntry, String.toList_push, List.getLast?_concat, List.dropLast_concat,
    String.ofList_toList]
  exact if_pos rfl

/-- Any other entry stands for itself. -/
theorem run_archivesOfEntry {entry : String} (h : entry.toList.getLast? ≠ some wildcard) :
    (archivesOfEntry disk entry).run
      = if (Path.ofString entry).hasExtension archiveExtension = true
          ∧ (disk.kind? (.ofString entry)).run = some .file then [.ofString entry] else [] := by
  rw [archivesOfEntry]
  cases hlast : entry.toList.getLast? with
  | none =>
    -- Nothing is no archive.
    have hempty : Path.ofString entry = ⟨[]⟩ := by
      rw [Path.ofString, Bytes.ofString, List.getLast?_eq_none_iff.mp hlast]
      rfl
    rw [hempty, if_neg fun harchive => absurd harchive.1 (by decide)]
    rfl
  | some c =>
    have hplain : c ≠ wildcard := fun heq => h (heq ▸ hlast)
    dsimp only
    rw [if_neg hplain, run_archivesAmong]
    simp only [← leadsToArchive_iff]
    split_ifs with harchive
    · exact List.filter_cons_of_pos harchive
    · exact List.filter_cons_of_neg harchive

theorem archives_resolve (entries : List String) (libraryDirectory? : Option Path) :
    (resolve disk entries libraryDirectory?).run.archives
      = (libraryDirectory?.elim [] fun directory => (archivesOfDirectory disk directory).run)
        ++ entries.flatMap fun entry => (archivesOfEntry disk entry).run := by
  have hentries : (archivesOfEntries disk entries).run
      = entries.flatMap fun entry => (archivesOfEntry disk entry).run := by
    induction entries with
    | nil => rfl
    | cons entry rest ih =>
      rw [List.flatMap_cons, ← ih]
      rfl
  rw [← hentries]
  cases libraryDirectory? with
  | none => rfl
  | some directory => rfl

/-- **What is on a classpath.** The contribution of the library directory, and then that of every
entry in turn, repetitions included. An entry with the wildcard at its end contributes what the
directory in front of the wildcard does, and any other entry itself if it leads to an archive. A
directory contributes exactly the archives that it has entries for, in the strict order of their
names; so the order in which it is listed does not show. -/
theorem resolve_exact (hdisk : disk.Lawful) (honce : disk.ListsOnce) :
    (∀ entries libraryDirectory?, (resolve disk entries libraryDirectory?).run.archives
        = (libraryDirectory?.elim [] fun directory => (archivesOfDirectory disk directory).run)
          ++ entries.flatMap fun entry => (archivesOfEntry disk entry).run)
    ∧ (∀ text, (archivesOfEntry disk (text.push wildcard)).run
        = (archivesOfDirectory disk (.ofString text)).run)
    ∧ (∀ entry, entry.toList.getLast? ≠ some wildcard → (archivesOfEntry disk entry).run
        = if (Path.ofString entry).hasExtension archiveExtension = true
            ∧ (disk.kind? (.ofString entry)).run = some .file then [.ofString entry] else [])
    ∧ (∀ directory, (archivesOfDirectory disk directory).run.Pairwise
          (fun a b => a.fileName? < b.fileName?)
        ∧ ∀ path, path ∈ (archivesOfDirectory disk directory).run
          ↔ (disk.kind? directory).run = some .directory
            ∧ ∃ entries, (disk.entries directory).run = .ok entries
              ∧ ∃ entry ∈ entries, path = directory.join ⟨entry.name⟩
                ∧ path.hasExtension archiveExtension = true
                ∧ (disk.kind? path).run = some .file)
    ∧ ∀ disk', disk.Reorders disk' → ∀ entries libraryDirectory?,
        resolve disk' entries libraryDirectory? = resolve disk entries libraryDirectory? :=
  ⟨archives_resolve, fun text => congrArg Id.run (archivesOfEntry_push text),
    fun _ h => run_archivesOfEntry h,
    fun directory => ⟨pairwise_archivesOfDirectory hdisk honce directory,
      fun _ => mem_archivesOfDirectory_iff⟩,
    fun _ hreorders entries libraryDirectory? =>
      (resolve_of_reorders hreorders entries libraryDirectory?).symm⟩

/-- A directory that is listed by name is not sorted any further. -/
theorem run_archivesOfDirectory_of_pairwise {directory : Path} {entries : List DirEntry}
    (hdirectory : (disk.kind? directory).run = some .directory)
    (hentries : (disk.entries directory).run = .ok entries)
    (hsorted : (entries.map DirEntry.name).Pairwise fun a b => decide (a ≤ b) = true) :
    (archivesOfDirectory disk directory).run
      = (archivesAmong disk (entries.map fun entry => directory.join ⟨entry.name⟩)).run := by
  have hisDirectory : (disk.isDirectory directory).run = true := decide_eq_true hdirectory
  rw [run_archivesOfDirectory, if_pos hisDirectory, hentries]
  dsimp only
  rw [List.mergeSort_of_pairwise hsorted, List.map_map]
  rfl

/-- A library directory with an archive, a link to one, a directory of that extension and a file of
another one; and its archives again through entries, listed in either order. -/
theorem resolve_exact_linked :
    let library : Path := .ofString "/lib"
    let disk : Disk Id := FileSystem.atRest ⟨[([Bytes.ofString "lib"], .directory),
      ([Bytes.ofString "lib", Bytes.ofString "a.jar"], .link (.ofString "b.jar")),
      ([Bytes.ofString "lib", Bytes.ofString "b.jar"], .file []),
      ([Bytes.ofString "lib", Bytes.ofString "c.jar"], .directory),
      ([Bytes.ofString "lib", Bytes.ofString "d.JAR"], .file [])], [], true⟩
    let entries := ["/lib/**", "/lib//b.jar", "/lib/.*"]
    let archives : List Path := ["/lib/a.jar", "/lib/b.jar", "/lib//b.jar", "/lib/./a.jar",
      "/lib/./b.jar"].map Path.ofString
    (resolve disk entries (some library)).run.archives = archives
      ∧ (resolve disk.backwards entries (some library)).run.archives = archives
      ∧ (archivesOfDirectory disk library).run.Pairwise fun a b => a.fileName? < b.fileName? := by
  intro library disk entries archives
  have hdisk : disk.Lawful := FileSystem.lawful_atRest (by decide)
  have honce : disk.ListsOnce := FileSystem.listsOnce_atRest (by decide)
  obtain ⟨hresolve, hwildcard, hplain, hdirectory, hreordered⟩ := resolve_exact hdisk honce
  let listing : List DirEntry := [⟨Bytes.ofString "a.jar", .link⟩, ⟨Bytes.ofString "b.jar", .file⟩,
    ⟨Bytes.ofString "c.jar", .directory⟩, ⟨Bytes.ofString "d.JAR", .file⟩]
  have hlisted : ∀ directory ∈ [library, .ofString "/lib/."],
      (archivesOfDirectory disk directory).run
        = (archivesAmong disk (listing.map fun entry => directory.join ⟨entry.name⟩)).run := by
    intro directory hmem
    have hfound : ∀ d ∈ [library, .ofString "/lib/."], (disk.kind? d).run = some .directory
        ∧ (disk.entries d).run = .ok listing := by
      decide +kernel
    obtain ⟨hkind, hentries⟩ := hfound directory hmem
    exact run_archivesOfDirectory_of_pairwise hkind hentries (by decide)
  have hglob : (archivesOfEntry disk "/lib/**").run = [] :=
    (hwildcard "/lib/*").trans (by decide +kernel)
  have hself : (archivesOfEntry disk "/lib//b.jar").run = [.ofString "/lib//b.jar"] :=
    (hplain "/lib//b.jar" (by decide)).trans (by decide +kernel)
  have hdotted : (archivesOfEntry disk "/lib/.*").run
      = (archivesOfDirectory disk (.ofString "/lib/.")).run := hwildcard "/lib/."
  have harchives : (resolve disk entries (some library)).run.archives = archives := by
    rw [hresolve]
    simp only [entries, List.flatMap_cons, List.flatMap_nil, Option.elim_some, hglob, hself,
      hdotted, hlisted library (by simp), hlisted (.ofString "/lib/.") (by simp)]
    decide +kernel
  refine ⟨harchives, ?_, (hdirectory library).1⟩
  rw [hreordered disk.backwards disk.reorders_backwards, harchives]

end Classpath

end WorkspaceSession
