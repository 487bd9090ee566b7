/-
Where a library is found.

A loader looks for an archive by its file name and takes the first one on its classpath. What users
configure is no classpath but a library directory and a list of entries, and what they rely on is
the order of these: of two archives of one name the one counts that is configured first. So the
lookup is described here by suppliers, in the order of the configuration, and by what each of them
holds under a name (`Supplier.Holds`), which is said of the disk alone.

Under one name a supplier holds one archive at most. In a directory this is so because an entry of
the directory is named by the last component of its path, and an entry of the configuration stands
for a single path. Hence the first supplier that holds anything under a name decides what is found,
and it does not matter at which place of its own contribution the archive stands
(`Loader.archive?_firstSupplier`).
-/
import WorkspaceSession.Proofs.Archives
import WorkspaceSession.Source

set_option autoImplicit false

namespace WorkspaceSession

/-! ## Names of archives -/

/-- A sequence is cut at the last element that satisfies the test. -/
theorem Text.splitAtLast?_eq_some_iff {α : Type} {p : α → Bool} {l front tail : List α} :
    splitAtLast? p l = some (front, tail)
      ↔ ∃ a, l = front ++ a :: tail ∧ p a = true ∧ ∀ b ∈ tail, p b = false := by
  constructor
  · intro h
    -- From the end, the tail is taken, and the element that stops it comes next.
    have hcut := List.takeWhile_append_dropWhile (p := fun a => !p a) (l := l.reverse)
    have hrest : (l.reverse.takeWhile (fun a => !p a) ++ l.reverse.dropWhile fun a => !p a).drop
        (l.reverse.takeWhile fun a => !p a).length = l.reverse.dropWhile fun a => !p a :=
      List.drop_left
    have hstop := List.head?_dropWhile_not (fun a => !p a) l.reverse
    rw [hcut] at hrest
    rw [splitAtLast?, hrest] at h
    split at h
    · exact nomatch h
    · rename_i a rest hdropped
      rw [hdropped] at hstop hcut
      obtain ⟨rfl, rfl⟩ := Prod.mk.inj (Option.some.inj h)
      have hwhole := congrArg List.reverse hcut
      rw [List.reverse_append, List.reverse_cons, List.append_assoc, List.singleton_append,
        List.reverse_reverse] at hwhole
      refine ⟨a, hwhole.symm, by simpa using hstop, fun b hb => ?_⟩
      simpa using List.mem_takeWhile_imp (List.mem_reverse.mp hb)
  · rintro ⟨a, rfl, ha, htail⟩
    have htaken : (front ++ a :: tail).reverse.takeWhile (fun a => !p a) = tail.reverse := by
      rw [List.reverse_append, List.reverse_cons, List.append_assoc, List.takeWhile_append_of_pos,
        List.singleton_append, List.takeWhile_cons_of_neg, List.append_nil]
      · simp [ha]
      · intro b hb
        simp [htail b (List.mem_reverse.mp hb)]
    rw [splitAtLast?, htaken, List.reverse_append, List.reverse_cons, List.append_assoc,
      List.drop_left, List.singleton_append]
    dsimp only
    rw [List.reverse_reverse, List.reverse_reverse]

namespace Path

/-- A name that archives have: something, and the archive extension behind a dot. -/
def IsArchiveName (name : Bytes) : Prop :=
  ∃ stem, stem ≠ [] ∧ name = stem ++ dot :: Bytes.ofString archiveExtension

theorem extensionOfName_eq_archiveExtension_iff {name : Bytes} :
    extensionOfName name = some (Bytes.ofString archiveExtension) ↔ IsArchiveName name := by
  have hnoDot : dot ∉ Bytes.ofString archiveExtension := by decide
  constructor
  · intro h
    rw [extensionOfName] at h
    split at h
    · rename_i b front extension hcut
      obtain ⟨a, hname, ha, -⟩ := Text.splitAtLast?_eq_some_iff.mp hcut
      refine ⟨b :: front, List.cons_ne_nil _ _, ?_⟩
      rw [hname, of_decide_eq_true ha, Option.some.inj h]
    · exact nomatch h
  · rintro ⟨stem, hstem, rfl⟩
    obtain ⟨b, front, rfl⟩ := List.exists_cons_of_ne_nil hstem
    have hextension : ∀ c ∈ Bytes.ofString archiveExtension, decide (c = dot) = false :=
      fun c hc => decide_eq_false fun h => hnoDot (h ▸ hc)
    rw [extensionOfName,
      Text.splitAtLast?_eq_some_iff.mpr ⟨dot, rfl, decide_eq_true rfl, hextension⟩]

theorem fileName?_eq_some_iff {path : Path} {name : Bytes} :
    path.fileName? = some name ↔ path.components.getLast? = some (.name name) := by
  rw [fileName?]
  split
  · rename_i last hlast
    rw [hlast, Option.some.injEq, Option.some.injEq, Component.name.injEq]
  · rename_i hlast
    exact iff_of_false (by simp) fun h => hlast name h

/-- A path has the archive extension if its last component is the name of an archive. -/
theorem hasExtension_archiveExtension_iff {path : Path} {name : Bytes}
    (hname : path.fileName? = some name) :
    path.hasExtension archiveExtension = true ↔ IsArchiveName name := by
  rw [hasExtension, decide_eq_true_eq, extension?, hname, Option.bind_some,
    extensionOfName_eq_archiveExtension_iff]

end Path

/-! ## Suppliers -/

/-- What archives come from. -/
inductive Supplier where
  /-- A directory, with the archives directly in it. -/
  | directory (path : Path)
  /-- A path that is meant to be an archive. -/
  | archive (path : Path)

namespace Supplier

/-- What an entry stands for. -/
def ofEntry (entry : String) : Supplier :=
  if entry.toList.getLast? = some wildcard then
    .directory (.ofString (String.ofList entry.toList.dropLast))
  else .archive (.ofString entry)

/-- The suppliers of a configuration: the library directory, and then every entry. -/
def inOrder (entries : List String) (libraryDirectory? : Option Path) : List Supplier :=
  (libraryDirectory?.map directory).toList ++ entries.map ofEntry

/-- A supplier holds an archive under a name: a directory has an entry of this name, or a path has
this name as its last component, and it is the name of an archive and leads to a regular file. -/
inductive Holds (disk : Disk Id) : Supplier → Bytes → Path → Prop
  /-- An entry of a directory. -/
  | entry {directory : Path} {entries : List DirEntry} {entry : DirEntry} :
      (disk.kind? directory).run = some .directory →
      (disk.entries directory).run = .ok entries → entry ∈ entries →
      Path.IsArchiveName entry.name →
      (disk.kind? (directory.join ⟨entry.name⟩)).run = some .file →
      Holds disk (.directory directory) entry.name (directory.join ⟨entry.name⟩)
  /-- A path itself. -/
  | itself {path : Path} {name : Bytes} :
      path.components.getLast? = some (.name name) → Path.IsArchiveName name →
      (disk.kind? path).run = some .file → Holds disk (.archive path) name path

variable (disk : Disk Id)

/-- The archives that a supplier contributes to a classpath. -/
def archives : Supplier → List Path
  | .directory path => (Classpath.archivesOfDirectory disk path).run
  | .archive path => (Classpath.archivesAmong disk [path]).run

theorem archives_ofEntry (entry : String) :
    (ofEntry entry).archives disk = (Classpath.archivesOfEntry disk entry).run := by
  rw [ofEntry, Classpath.archivesOfEntry]
  cases hlast : entry.toList.getLast? with
  | none =>
    -- Nothing is no archive.
    have hempty : Path.ofString entry = ⟨[]⟩ := by
      rw [Path.ofString, Bytes.ofString, List.getLast?_eq_none_iff.mp hlast]
      rfl
    rw [if_neg (by simp), hempty]
    rfl
  | some c =>
    simp only [Option.some.injEq]
    split_ifs
    · rfl
    · rfl

/-- A classpath is what the suppliers contribute, one behind the other. -/
theorem archives_resolve_inOrder (entries : List String) (libraryDirectory? : Option Path) :
    (Classpath.resolve disk entries libraryDirectory?).run.archives
      = (inOrder entries libraryDirectory?).flatMap (archives disk) := by
  rw [Classpath.archives_resolve, inOrder, List.flatMap_append, List.flatMap_map]
  simp only [archives_ofEntry]
  congr 1
  cases libraryDirectory? with
  | none => rfl
  | some directory => exact (List.append_nil _).symm

variable {disk}

/-- What a supplier holds under a name is the archive of this name that it contributes. -/
theorem holds_iff (hdisk : disk.Lawful) {supplier : Supplier} {name : Bytes} {archive : Path} :
    supplier.Holds disk name archive
      ↔ archive ∈ supplier.archives disk ∧ archive.fileName? = some name := by
  cases supplier with
  | directory directory =>
    rw [archives, Classpath.mem_archivesOfDirectory_iff]
    constructor
    · rintro ⟨hkind, hentries, hentry, hname, hfile⟩
      have hlast := Path.fileName?_join (hdisk.entryName hentries _ hentry) directory
      have hextension := (Path.hasExtension_archiveExtension_iff hlast).mpr hname
      exact ⟨⟨hkind, _, hentries, _, hentry, rfl, hextension, hfile⟩, hlast⟩
    · rintro ⟨⟨hkind, entries, hentries, entry, hentry, rfl, hextension, hfile⟩, hname⟩
      have hlast := Path.fileName?_join (hdisk.entryName hentries entry hentry) directory
      obtain rfl : entry.name = name := Option.some.inj (hlast.symm.trans hname)
      have harchive := (Path.hasExtension_archiveExtension_iff hlast).mp hextension
      exact .entry hkind hentries hentry harchive hfile
  | archive path =>
    rw [archives, Classpath.run_archivesAmong, List.mem_filter, List.mem_singleton,
      Classpath.leadsToArchive_iff]
    constructor
    · intro h
      cases h with
      | itself hlast hname hfile =>
        have hfileName := Path.fileName?_eq_some_iff.mpr hlast
        have hextension := (Path.hasExtension_archiveExtension_iff hfileName).mpr hname
        exact ⟨⟨rfl, hextension, hfile⟩, hfileName⟩
    · rintro ⟨⟨rfl, hextension, hfile⟩, hname⟩
      have harchive := (Path.hasExtension_archiveExtension_iff hname).mp hextension
      exact .itself (Path.fileName?_eq_some_iff.mp hname) harchive hfile

/-- Under one name there is one archive: the name is the one of the entry, and the directory and
the name are the path. -/
theorem Holds.unique {supplier : Supplier} {name : Bytes} {archive other : Path}
    (h : supplier.Holds disk name archive) (h' : supplier.Holds disk name other) :
    archive = other := by
  cases h with
  | entry =>
    -- The name is set apart from the entry that has it, as another entry may have it too.
    generalize DirEntry.name _ = name' at h' ⊢
    cases h' with
    | entry => rfl
  | itself =>
    cases h' with
    | itself => rfl

/-- A search in the contribution of one supplier. -/
theorem find?_archives (hdisk : disk.Lawful) {supplier : Supplier} {name : Bytes} {archive : Path} :
    (supplier.archives disk).find? (fun archive => archive.fileName? = some name) = some archive
      ↔ supplier.Holds disk name archive := by
  constructor
  · intro h
    exact (holds_iff hdisk).mpr ⟨List.mem_of_find?_eq_some h, by simpa using List.find?_some h⟩
  · intro h
    obtain ⟨hmem, hname⟩ := (holds_iff hdisk).mp h
    have hsome : ((supplier.archives disk).find? fun archive =>
        archive.fileName? = some name).isSome = true := by
      rw [List.find?_isSome]
      exact ⟨archive, hmem, decide_eq_true hname⟩
    obtain ⟨found, hfound⟩ := Option.isSome_iff_exists.mp hsome
    -- Whatever is found first has the name, and there is only one archive that has it.
    have hholds := (holds_iff hdisk).mpr
      ⟨List.mem_of_find?_eq_some hfound, by simpa using List.find?_some hfound⟩
    rw [hfound, hholds.unique h]

theorem find?_archives_eq_none (hdisk : disk.Lawful) {supplier : Supplier} {name : Bytes} :
    (supplier.archives disk).find? (fun archive => archive.fileName? = some name) = none
      ↔ ∀ archive, ¬supplier.Holds disk name archive := by
  rw [Option.eq_none_iff_forall_ne_some]
  exact forall_congr' fun archive => not_congr (find?_archives hdisk)

/-- More entries are more suppliers, behind those that there were. -/
theorem inOrder_append (xs ys : List String) (libraryDirectory? : Option Path) :
    inOrder (xs ++ ys) libraryDirectory? = inOrder xs libraryDirectory? ++ inOrder ys none := by
  rw [inOrder, inOrder, inOrder, List.map_append, List.append_assoc]
  rfl

end Supplier

/-! ## Lookups -/

namespace Loader

variable {disk : Disk Id}

/-- The loader on the classpath of a configuration. -/
def configured (disk : Disk Id) (entries : List String) (libraryDirectory? : Option Path) :
    Loader :=
  ⟨.ofClasspath (Classpath.resolve disk entries libraryDirectory?).run⟩

/-- A lookup asks one supplier after the other. -/
theorem archive?_configured (entries : List String) (libraryDirectory? : Option Path)
    (name : String) :
    (configured disk entries libraryDirectory?).archive? name
      = (Supplier.inOrder entries libraryDirectory?).findSome? fun supplier =>
          (supplier.archives disk).find? fun archive =>
            archive.fileName? = some (Bytes.ofString name) := by
  have harchives := Supplier.archives_resolve_inOrder disk entries libraryDirectory?
  rw [archive?, configured, Configuration.ofClasspath, Classpath.find?, harchives,
    List.find?_flatMap]

/-- Further entries are asked if nothing was found before. -/
theorem archive?_configured_append (xs ys : List String) (libraryDirectory? : Option Path)
    (name : String) :
    (configured disk (xs ++ ys) libraryDirectory?).archive? name
      = ((configured disk xs libraryDirectory?).archive? name).or
          ((configured disk ys none).archive? name) := by
  rw [archive?_configured, archive?_configured, archive?_configured, Supplier.inOrder_append,
    List.findSome?_append]

/-- **The first supplier counts.** Under one name every supplier of a configuration holds one archive
at most. A lookup finds the one that the first of the suppliers holds that hold any, where the
library directory comes first and then every entry in turn, and it finds nothing exactly if none of
them does. So further entries change nothing about a name that is found, and answer alone, as
without a library directory, for a name that is not. -/
theorem archive?_firstSupplier (hdisk : disk.Lawful) :
    (∀ (supplier : Supplier) name archive other, supplier.Holds disk name archive →
        supplier.Holds disk name other → archive = other)
    ∧ (∀ entries libraryDirectory? name archive,
        (configured disk entries libraryDirectory?).archive? name = some archive
          ↔ ∃ front supplier rest,
              Supplier.inOrder entries libraryDirectory? = front ++ supplier :: rest
              ∧ supplier.Holds disk (Bytes.ofString name) archive
              ∧ ∀ earlier ∈ front, ∀ other, ¬earlier.Holds disk (Bytes.ofString name) other)
    ∧ (∀ entries libraryDirectory? name,
        (configured disk entries libraryDirectory?).archive? name = none
          ↔ ∀ supplier ∈ Supplier.inOrder entries libraryDirectory?, ∀ archive,
              ¬supplier.Holds disk (Bytes.ofString name) archive)
    ∧ (∀ xs ys libraryDirectory? name archive,
        (configured disk xs libraryDirectory?).archive? name = some archive →
        (configured disk (xs ++ ys) libraryDirectory?).archive? name = some archive)
    ∧ ∀ xs ys libraryDirectory? name,
        (configured disk xs libraryDirectory?).archive? name = none →
        (configured disk (xs ++ ys) libraryDirectory?).archive? name
          = (configured disk ys none).archive? name := by
  refine ⟨fun _ _ _ _ h h' => h.unique h', fun entries libraryDirectory? name archive => ?_,
    fun entries libraryDirectory? name => ?_, fun xs ys libraryDirectory? name archive hfound => ?_,
    fun xs ys libraryDirectory? name hmissing => ?_⟩
  · rw [archive?_configured, List.findSome?_eq_some_iff]
    simp only [Supplier.find?_archives hdisk, Supplier.find?_archives_eq_none hdisk]
  · rw [archive?_configured, List.findSome?_eq_none_iff]
    simp only [Supplier.find?_archives_eq_none hdisk]
  · rw [archive?_configured_append, hfound, Option.some_or]
  · rw [archive?_configured_append, hmissing, Option.none_or]

/-- In the library directory only a directory has the name, the first entry leads to an archive of
this name and the second one to another; what is found is the path of the first as it is spelled. -/
theorem archive?_firstSupplier_shadowed :
    let library : Path := .ofString "/lib"
    let disk : Disk Id := FileSystem.atRest ⟨[([Bytes.ofString "lib"], .directory),
      ([Bytes.ofString "lib", Bytes.ofString "a.jar"], .directory),
      ([Bytes.ofString "one"], .directory),
      ([Bytes.ofString "one", Bytes.ofString "a.jar"], .file []),
      ([Bytes.ofString "two"], .directory),
      ([Bytes.ofString "two", Bytes.ofString "a.jar"], .file [])], [], true⟩
    (configured disk [] (some library)).archive? "a.jar" = none
      ∧ (configured disk ["/lib/../one//a.jar"] (some library)).archive? "a.jar"
        = some (.ofString "/lib/../one//a.jar")
      ∧ (configured disk (["/lib/../one//a.jar"] ++ ["/two/*"]) (some library)).archive? "a.jar"
        = some (.ofString "/lib/../one//a.jar")
      ∧ (configured disk ([] ++ ["/two/*"]) (some library)).archive? "a.jar"
        = (configured disk ["/two/*"] none).archive? "a.jar"
      ∧ (configured disk ["/two/*"] none).archive? "a.jar" = some (.ofString "/two/a.jar") := by
  intro library disk
  have hdisk : disk.Lawful := FileSystem.lawful_atRest (by decide)
  obtain ⟨-, hfound, hmissing, hkept, hmore⟩ := archive?_firstSupplier hdisk
  have hlibrary : ∀ archive,
      ¬(Supplier.directory library).Holds disk (Bytes.ofString "a.jar") archive := by
    intro archive hholds
    have hlisted : (disk.entries library).run = .ok [⟨Bytes.ofString "a.jar", .directory⟩] := by
      decide +kernel
    have hnone : (Classpath.archivesAmong disk [library.join ⟨Bytes.ofString "a.jar"⟩]).run = [] := by
      decide +kernel
    have hmem := ((Supplier.holds_iff hdisk).mp hholds).1
    rw [Supplier.archives, Classpath.run_archivesOfDirectory_of_pairwise (by decide +kernel) hlisted
      (by decide)] at hmem
    exact absurd (hnone ▸ hmem) List.not_mem_nil
  have hentry : Supplier.Holds disk (.ofEntry "/lib/../one//a.jar") (Bytes.ofString "a.jar")
      (.ofString "/lib/../one//a.jar") :=
    .itself (by decide) ⟨Bytes.ofString "a", by decide, by decide⟩ (by decide +kernel)
  have hlisted : (disk.entries (.ofString "/two/")).run
      = .ok [⟨Bytes.ofString "a.jar", .file⟩] := by
    decide +kernel
  have hdirectory : Supplier.Holds disk (.ofEntry "/two/*") (Bytes.ofString "a.jar")
      (.ofString "/two/a.jar") :=
    .entry (by decide +kernel) hlisted List.mem_cons_self
      ⟨Bytes.ofString "a", by decide, by decide⟩ (by decide +kernel)
  have hbare : (configured disk [] (some library)).archive? "a.jar" = none :=
    (hmissing _ _ _).mpr fun supplier hsupplier => List.mem_singleton.mp hsupplier ▸ hlibrary
  have hspelled : (configured disk ["/lib/../one//a.jar"] (some library)).archive? "a.jar"
      = some (.ofString "/lib/../one//a.jar") :=
    (hfound _ _ _ _).mpr ⟨[.directory library], _, [], rfl, hentry,
      fun earlier hearlier => List.mem_singleton.mp hearlier ▸ hlibrary⟩
  refine ⟨hbare, hspelled, hkept _ _ _ _ _ hspelled, hmore _ _ _ _ hbare, ?_⟩
  exact (hfound _ _ _ _).mpr ⟨[], _, [], rfl, hdirectory, fun _ h => absurd h List.not_mem_nil⟩

end Loader

end WorkspaceSession
