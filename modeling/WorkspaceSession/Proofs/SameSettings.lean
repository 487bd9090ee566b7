/-
Settings that are the same.

A workspace keeps its session when it is given settings that are the same as before, although the
library directory may be spelled in another way. This is right only if what the settings resolve to
is a matter of what they are, and not of how they are spelled. It is: under both spellings the
library directory is one or is none, has the same entries, and its archives are reached under the
same names (`Classpath.same_archivesOfDirectory`). Their paths are spelled as the directory is, so
the classpaths are the same as paths are, archive by archive.

The spelling is felt in one way. A longer one may take a path over the limit of the system, and an
archive out of reach is left out.
-/
import Mathlib.Data.List.Forall2
import WorkspaceSession.Proofs.Archives
import WorkspaceSession.Proofs.AtRest
import WorkspaceSession.Proofs.Lifetimes
import WorkspaceSession.Proofs.Respellings

set_option autoImplicit false

namespace WorkspaceSession

namespace Classpath

/-! ## Classpaths that are the same -/

/-- Two classpaths have the same archives in the same order, in whatever spelling. -/
def Same (a b : Classpath) : Prop :=
  List.Forall₂ (fun p q => p.same q = true) a.archives b.archives

/-- Where the archives are the same, the same one is found. -/
theorem Same.find? {a b : Classpath} (h : a.Same b) (name : String) :
    Option.Rel (fun p q => p.same q = true) (a.find? name) (b.find? name) := by
  obtain ⟨archives⟩ := a
  obtain ⟨archives'⟩ := b
  rw [Same] at h
  rw [Classpath.find?, Classpath.find?]
  dsimp only at h ⊢
  induction h with
  | nil => exact .none
  | @cons p q _ _ hsame hrest ih =>
    rw [List.find?_cons, List.find?_cons, Path.fileName?_congr (Path.same_iff.mp hsame)]
    split
    · exact .some hsame
    · exact ih

/-- Of paths that are the same and lead to the same, the same ones lead to archives. -/
theorem same_archivesAmong {disk : Disk Id} {paths paths' : List Path}
    (h : List.Forall₂ (fun p q => p.same q = true
      ∧ (leadsToArchive disk p).run = (leadsToArchive disk q).run) paths paths') :
    List.Forall₂ (fun p q => p.same q = true) (archivesAmong disk paths).run
      (archivesAmong disk paths').run := by
  rw [run_archivesAmong, run_archivesAmong]
  induction h with
  | nil => exact .nil
  | cons hfirst hrest ih =>
    rw [List.filter_cons, List.filter_cons, hfirst.2]
    split_ifs
    · exact .cons hfirst.1 ih
    · exact ih

end Classpath

/-! ## Directories -/

namespace FileSystem

variable {fs : FileSystem}

/-- The limit on the length of paths is felt neither at a directory nor at anything in it that may
be an archive. -/
structure WithinLimit (fs : FileSystem) (directory : Path) : Prop where
  /-- At the directory. -/
  atDirectory : directory.bytes.length ≤ maxPathLength
  /-- At an entry that has the extension of archives. -/
  atArchives : ∀ entries, fs.entries directory = .ok entries → ∀ entry ∈ entries,
    (directory.join ⟨entry.name⟩).hasExtension archiveExtension = true →
      (directory.join ⟨entry.name⟩).bytes.length ≤ maxPathLength

theorem kind?_eq_directory_iff {path : Path} :
    ((fs.atRest : Disk Id).kind? path).run = some .directory
      ↔ ∃ target, fs.lookup true path = .ok target ∧ target.IsDirectory fs := by
  have hkind : ((fs.atRest : Disk Id).kind? path).run = (fs.kindOf true path).toOption := rfl
  rw [hkind, kindOf]
  cases fs.lookup true path with
  | error e => exact iff_of_false (fun h => nomatch h) fun ⟨_, h, _⟩ => nomatch h
  | ok target =>
    simp only [bind, Except.bind, Except.ok.injEq, exists_eq_left']
    cases target with
    | removedDirectory => exact iff_of_true rfl trivial
    | place found =>
      dsimp only [Target.IsDirectory]
      cases fs.node? found with
      | none => exact iff_of_false (fun h => nomatch h) (fun h => nomatch h)
      | some node =>
        cases node with
        | directory => exact iff_of_true rfl rfl
        | file content => exact iff_of_false (fun h => nomatch h) (fun h => nomatch h)
        | link target => exact iff_of_false (fun h => nomatch h) (fun h => nomatch h)

section

variable {p q : Path} (hsame : p.same q = true) (hp : fs.WithinLimit p) (hq : fs.WithinLimit q)
include hsame hp hq

theorem WithinLimit.kind?_directory_iff :
    ((fs.atRest : Disk Id).kind? p).run = some .directory
      ↔ ((fs.atRest : Disk Id).kind? q).run = some .directory := by
  rw [kind?_eq_directory_iff, kind?_eq_directory_iff]
  exact exists_congr fun target =>
    lookup_directory_congr (Path.same_iff.mp hsame) hp.atDirectory hq.atDirectory target

theorem WithinLimit.entries_eq (h : ((fs.atRest : Disk Id).kind? p).run = some .directory) :
    fs.entries p = fs.entries q := by
  obtain ⟨target, hfound⟩ := kind?_eq_directory_iff.mp h
  have hfound' := (lookup_directory_congr (Path.same_iff.mp hsame) hp.atDirectory hq.atDirectory
    target).mp hfound
  rw [entries, entries, hfound.1, hfound'.1]

/-- An entry is an archive under both spellings or under none. -/
theorem WithinLimit.run_leadsToArchive_eq {entries : List DirEntry}
    (hentries : fs.entries p = .ok entries) (hentries' : fs.entries q = .ok entries)
    {entry : DirEntry} (hentry : entry ∈ entries) (hname : Path.IsEntryName entry.name) :
    (Classpath.leadsToArchive (fs.atRest : Disk Id) (p.join ⟨entry.name⟩)).run
      = (Classpath.leadsToArchive (fs.atRest : Disk Id) (q.join ⟨entry.name⟩)).run := by
  have hcomponents := Path.same_iff.mp hsame
  have hjoin : (p.join ⟨entry.name⟩).components = (q.join ⟨entry.name⟩).components := by
    rw [Path.components_join hname, Path.components_join hname, hcomponents]
  have hextension := Path.hasExtension_congr hjoin archiveExtension
  rw [Classpath.run_leadsToArchive, Classpath.run_leadsToArchive, ← hextension]
  cases harchive : (p.join ⟨entry.name⟩).hasExtension archiveExtension with
  | false => rfl
  | true =>
    have hlookup : fs.lookup true (p.join ⟨entry.name⟩) = fs.lookup true (q.join ⟨entry.name⟩) :=
      lookup_join_congr hcomponents hname (hp.atArchives entries hentries entry hentry harchive)
        (hq.atArchives entries hentries' entry hentry (hextension ▸ harchive))
    have hkind : (fs.atRest : Disk Id).kind? (p.join ⟨entry.name⟩)
        = (fs.atRest : Disk Id).kind? (q.join ⟨entry.name⟩) := by
      change pure (fs.kindOf true _).toOption = pure (fs.kindOf true _).toOption
      rw [kindOf, kindOf, hlookup]
    rw [hkind]

end

end FileSystem

namespace Classpath

variable {fs : FileSystem} (hdisk : (fs.atRest : Disk Id).Lawful)
include hdisk

/-- **The same directory, the same archives.** -/
theorem same_archivesOfDirectory {p q : Path} (hsame : p.same q = true) (hp : fs.WithinLimit p)
    (hq : fs.WithinLimit q) :
    List.Forall₂ (fun p q => p.same q = true) (archivesOfDirectory (fs.atRest : Disk Id) p).run
      (archivesOfDirectory (fs.atRest : Disk Id) q).run := by
  have hkind := hp.kind?_directory_iff hsame hq
  have hisDirectory : ((fs.atRest : Disk Id).isDirectory p).run
      = ((fs.atRest : Disk Id).isDirectory q).run := decide_eq_decide.mpr hkind
  rw [run_archivesOfDirectory, run_archivesOfDirectory, ← hisDirectory]
  split_ifs with hdirectory
  · have hrun : ∀ path, ((fs.atRest : Disk Id).entries path).run = fs.entries path := fun _ => rfl
    have hsameEntries := hp.entries_eq hsame hq (of_decide_eq_true hdirectory)
    rw [hrun, hrun, ← hsameEntries]
    cases hentries : fs.entries p with
    | error e => exact .nil
    | ok entries =>
      refine same_archivesAmong ?_
      rw [List.forall₂_map_left_iff, List.forall₂_map_right_iff, List.forall₂_same]
      intro name hname
      obtain ⟨entry, hentry, rfl⟩ := List.mem_map.mp (List.mem_mergeSort.mp hname)
      have hentryName := hdisk.entryName hentries entry hentry
      refine ⟨Path.same_iff.mpr ?_, hp.run_leadsToArchive_eq hsame hq hentries
        (hsameEntries ▸ hentries) hentry hentryName⟩
      rw [Path.components_join hentryName, Path.components_join hentryName, Path.same_iff.mp hsame]
  · exact .nil

end Classpath

/-! ## Settings -/

namespace Settings

/-- The limit on the length of paths is not felt in the library directory. -/
def WithinLimit (settings : Settings) (fs : FileSystem) : Prop :=
  ∀ directory ∈ settings.libraryDirectory?, fs.WithinLimit directory

/-- What settings resolve to on a file system at rest. -/
def resolveOn (settings : Settings) (fs : FileSystem) : Classpath :=
  (Classpath.resolve (fs.atRest : Disk Id) settings.classpath settings.libraryDirectory?).run

theorem same_iff {s t : Settings} :
    s.same t = true
      ↔ s.classpath = t.classpath
        ∧ sameDirectory s.libraryDirectory? t.libraryDirectory? = true := by
  rw [same, Bool.and_eq_true, decide_eq_true_eq]

/-- **Settings that are the same resolve to the same.** -/
theorem same_resolveOn {fs : FileSystem} (hdisk : (fs.atRest : Disk Id).Lawful) {s t : Settings}
    (hsame : s.same t = true) (hs : s.WithinLimit fs) (ht : t.WithinLimit fs) :
    (s.resolveOn fs).Same (t.resolveOn fs) := by
  obtain ⟨hclasspath, hdirectory⟩ := same_iff.mp hsame
  rw [Classpath.Same, resolveOn, resolveOn, Classpath.archives_resolve, Classpath.archives_resolve,
    hclasspath]
  have hconfigured : ∀ archives : List Path,
      List.Forall₂ (fun p q => p.same q = true) archives archives :=
    fun archives => List.forall₂_same.mpr fun p _ => Path.same_self p
  refine List.rel_append ?_ (hconfigured _)
  cases hp : s.libraryDirectory? with
  | none =>
    cases hq : t.libraryDirectory? with
    | none => exact .nil
    | some q => exact absurd hdirectory (by simp [hp, hq, sameDirectory])
  | some p =>
    cases hq : t.libraryDirectory? with
    | none => exact absurd hdirectory (by simp [hp, hq, sameDirectory])
    | some q =>
      rw [hp, hq] at hdirectory
      exact Classpath.same_archivesOfDirectory hdisk hdirectory (hs p hp) (ht q hq)

end Settings

/-! ## Sessions that are kept -/

/-- The settings that an event asks for, given the present ones. -/
def Event.asked? (settings : Settings) : Event → Option Settings
  | .withSettings asked => some asked
  | .withClasspath entries => some { settings with classpath := entries }
  | .withLibraryDirectory directory? => some { settings with libraryDirectory? := directory? }
  | _ => none

theorem Event.onWorkspace_of_asked {event : Event} {workspace : Workspace} {asked : Settings}
    (h : event.asked? workspace.settings = some asked) :
    event.onWorkspace workspace = workspace.withSettings asked := by
  cases event with
  | withSettings settings => exact congrArg workspace.withSettings (Option.some.inj h)
  | withClasspath entries => exact congrArg workspace.withSettings (Option.some.inj h)
  | withLibraryDirectory directory? => exact congrArg workspace.withSettings (Option.some.inj h)
  | _ => exact nomatch h

/-- A reconciliation that finds a file system at rest once it has taken the changes. -/
def Step.RestsOn (fs : FileSystem) : Step → Prop
  | .event _ => False
  | .reconcile disk editor _ s => disk.RestsAt (editor.takeChanged.run s).2 fs.atRest

theorem Step.resolved?_of_restsOn {fs : FileSystem} {step : Step} (h : step.RestsOn fs)
    (settings : Settings) : step.resolved? settings = some (settings.resolveOn fs) := by
  cases step with
  | event event => exact h.elim
  | reconcile disk editor root? s =>
    have hrests := Classpath.rests_resolve h settings.classpath settings.libraryDirectory?
    exact congrArg (fun answer => some answer.1) hrests

namespace Workspace

/-- A workspace with a session keeps it only for settings that are the same. -/
theorem session?_withSettings_iff {workspace : Workspace} {session : Session}
    (hsession : workspace.session? = some session) (asked : Settings) :
    (workspace.withSettings asked).session? = some session
      ↔ asked.same workspace.settings = true := by
  rw [withSettings]
  split_ifs with hsame
  · exact iff_of_true hsession hsame
  · have hstage : (discard { workspace with settings := asked }).stage = workspace.stage.discard :=
      rfl
    rw [Event.session?_of_stage_eq_discard hstage]
    exact iff_of_false (Option.some_ne_none session).symm hsame

/-- **No stale classpath.** Settings that are the same resolve to the same classpath, on which the
same archives are found, wherever the limit on the length of paths is not felt. So a workspace is
right to keep its session for them, which it does for them only: had it been given the new settings
before the session was made, the session would have the same classpath. -/
theorem same_settings_same_classpath :
    (∀ {fs : FileSystem}, (fs.atRest : Disk Id).Lawful → ∀ {s t : Settings}, s.same t = true →
        s.WithinLimit fs → t.WithinLimit fs →
          (s.resolveOn fs).Same (t.resolveOn fs)
          ∧ ∀ name, Option.Rel (fun p q => p.same q = true) ((s.resolveOn fs).find? name)
              ((t.resolveOn fs).find? name))
    ∧ ∀ settings steps event asked session,
        event.asked? (after settings steps).settings = some asked →
        (after settings steps).session? = some session →
          ((after settings (steps ++ [.event event])).session? = some session
              ↔ asked.same (after settings steps).settings = true)
          ∧ (asked.same (after settings steps).settings = true →
              after settings (steps ++ [.event event]) = after settings steps
              ∧ ∃ before built later, steps = before ++ built :: later
                ∧ LastFullBuild settings before built later
                ∧ ∀ fs, built.RestsOn fs → (fs.atRest : Disk Id).Lawful →
                    (after settings steps).settings.WithinLimit fs → asked.WithinLimit fs →
                      ∃ classpath, built.resolved? asked = some classpath
                        ∧ classpath.Same session.config.classpath) := by
  refine ⟨fun hdisk s t hsame hs ht => ?_, fun settings steps event asked session hasked
    hsession => ⟨?_, fun hsame => ⟨?_, ?_⟩⟩⟩
  · have hclasspath := Settings.same_resolveOn hdisk hsame hs ht
    exact ⟨hclasspath, hclasspath.find?⟩
  · rw [after_append_singleton, Step.onWorkspace, Event.onWorkspace_of_asked hasked]
    exact session?_withSettings_iff hsession asked
  · rw [after_append_singleton, Step.onWorkspace, Event.onWorkspace_of_asked hasked, withSettings,
      if_pos hsame]
  · obtain ⟨before, built, later, hsteps, hlast, hresolved, -⟩ :=
      exists_lastFullBuild settings steps session hsession
    refine ⟨before, built, later, hsteps, hlast, fun fs hrests hdisk hs ht => ?_⟩
    rw [Step.resolved?_of_restsOn hrests] at hresolved
    refine ⟨asked.resolveOn fs, Step.resolved?_of_restsOn hrests asked, ?_⟩
    rw [← Option.some.inj hresolved]
    exact Settings.same_resolveOn hdisk hsame ht hs

/-- A library directory behind a link, spelled in another way when there is a session: the session
is kept, and the other spelling would only have shown in how its archives are spelled. -/
theorem same_settings_same_classpath_dotted :
    let fs : FileSystem := ⟨[([Bytes.ofString "lib"], .link (.ofString "opt")),
      ([Bytes.ofString "opt"], .directory),
      ([Bytes.ofString "opt", Bytes.ofString "a.jar"], .link (.ofString "b.jar")),
      ([Bytes.ofString "opt", Bytes.ofString "b.jar"], .file [])], [], true⟩
    let plain : Settings := ⟨[], some (.ofString "/lib")⟩
    let dotted : Settings := ⟨[], some (.ofString "/lib//.")⟩
    let first : Step := .reconcile (fs.atRest : Disk (StateM Unit)) Buffers.empty.atRest none ()
    let second : Step := .event (.withLibraryDirectory dotted.libraryDirectory?)
    (plain.resolveOn fs).archives = ["/lib/a.jar", "/lib/b.jar"].map Path.ofString
      ∧ (dotted.resolveOn fs).archives = ["/lib//./a.jar", "/lib//./b.jar"].map Path.ofString
      ∧ (plain.resolveOn fs).Same (dotted.resolveOn fs)
      ∧ ∃ session, (after plain ([first] ++ [second])).session? = some session
        ∧ (dotted.resolveOn fs).Same session.config.classpath := by
  intro fs plain dotted first second
  let listing : List DirEntry := [⟨Bytes.ofString "a.jar", .link⟩, ⟨Bytes.ofString "b.jar", .file⟩]
  have hlisting : ∀ directory ∈ [Path.ofString "/lib", .ofString "/lib//."],
      ((fs.atRest : Disk Id).kind? directory).run = some .directory
        ∧ fs.entries directory = .ok listing
        ∧ directory.bytes.length ≤ FileSystem.maxPathLength
        ∧ ∀ entry ∈ listing, (directory.join ⟨entry.name⟩).bytes.length
          ≤ FileSystem.maxPathLength := by
    decide +kernel
  have hlimit : ∀ directory ∈ [Path.ofString "/lib", .ofString "/lib//."],
      fs.WithinLimit directory := by
    intro directory hmem
    obtain ⟨-, hentries, hlength, hlengths⟩ := hlisting directory hmem
    refine ⟨hlength, fun entries h entry hentry _ => hlengths entry ?_⟩
    rw [← Except.ok.inj (h.symm.trans hentries)]
    exact hentry
  have hplain : plain.WithinLimit fs := by
    rintro directory ⟨⟩
    exact hlimit _ (by simp)
  have hdotted : dotted.WithinLimit fs := by
    rintro directory ⟨⟩
    exact hlimit _ (by simp)
  have hdisk : (fs.atRest : Disk Id).Lawful := FileSystem.lawful_atRest (by decide)
  have hrests : first.RestsOn fs := ⟨rfl, fun _ => rfl, fun _ => rfl, fun _ => rfl, fun _ => rfl⟩
  have harchives : ∀ directory ∈ [Path.ofString "/lib", .ofString "/lib//."],
      (Settings.resolveOn ⟨[], some directory⟩ fs).archives
        = (Classpath.archivesAmong (fs.atRest : Disk Id)
            (listing.map fun entry => directory.join ⟨entry.name⟩)).run := by
    intro directory hmem
    obtain ⟨hkind, hentries, -⟩ := hlisting directory hmem
    rw [Settings.resolveOn, Classpath.archives_resolve, List.flatMap_nil, List.append_nil]
    exact Classpath.run_archivesOfDirectory_of_pairwise hkind hentries (by decide)
  obtain ⟨hresolve, hkept⟩ := same_settings_same_classpath
  refine ⟨(harchives _ (by simp)).trans (by decide +kernel),
    (harchives _ (by simp)).trans (by decide +kernel),
    (hresolve hdisk (by decide +kernel) hplain hdotted).1, ?_⟩
  obtain ⟨session, hafter⟩ := exists_session_onWorkspace (fs.atRest : Disk (StateM Unit))
    Buffers.empty.atRest none () (ofSettings plain)
  have hfirst : after plain [first] = ⟨plain, .active session⟩ := hafter
  have hsession : (after plain [first]).session? = some session := by
    rw [hfirst]
    rfl
  have hsettings : (after plain [first]).settings = plain := by rw [hfirst]
  obtain ⟨hiff, hclasspath⟩ := hkept plain [first] (.withLibraryDirectory dotted.libraryDirectory?)
    dotted session (by rw [hsettings]; rfl) hsession
  rw [hsettings] at hiff hclasspath
  obtain ⟨-, before, built, later, hsteps, -, hbuilt⟩ := hclasspath (by decide +kernel)
  obtain rfl : first = built := by
    cases before with
    | nil => exact (List.cons.inj hsteps).1
    | cons step rest => exact absurd hsteps (by simp)
  obtain ⟨classpath, hresolved, hsame⟩ := hbuilt fs hrests hdisk hplain hdotted
  rw [Step.resolved?_of_restsOn hrests] at hresolved
  refine ⟨session, hiff.mpr (by decide +kernel), ?_⟩
  rwa [Option.some.inj hresolved]

end Workspace

end WorkspaceSession
