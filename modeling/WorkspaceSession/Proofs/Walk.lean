/-
What a walk meets on a disk at rest.

A survey acts at every place that its walk comes to, and what it does there depends on the editor
and on the changed documents; where the walk comes does not. On a disk that answers the same
question always in the same way, `Disk Id`, the two can be taken apart: `Survey.meetings` lists what
a walk meets, and a walk that visits does so meeting by meeting (`Survey.walk_eq_flatMap`).

The list is then compared with what it ought to be. `Survey.Reaches` says without any bound which
places lie below a root through real directories, and `Survey.mem_rootMeetings` that the walk meets
exactly these. The depth of the walk is bounded and the bound is never felt: every directory on the
way adds at least a byte to the path, and no system lists a directory whose path is too long.
-/
import WorkspaceSession.FileSystem.Lookup
import WorkspaceSession.Proofs.FileUrls
import WorkspaceSession.Survey

set_option autoImplicit false

namespace WorkspaceSession

/-! ## Disks of a system -/

/-- What every system promises of its disk. -/
structure Disk.Lawful (disk : Disk Id) : Prop where
  /-- The entries of a directory have names that entries can have. -/
  entryName : ∀ {path entries}, (disk.entries path).run = .ok entries →
    ∀ entry ∈ entries, Path.IsEntryName entry.name
  /-- A directory is not listed under a path that is too long. -/
  pathLimit : ∀ {path entries}, (disk.entries path).run = .ok entries →
    path.bytes.length ≤ FileSystem.maxPathLength

namespace Survey

/-! ## Meetings -/

/-- What a walk can meet. -/
inductive Meeting where
  /-- Something stands at a place. -/
  | place (path : Path) (kind : NodeKind)
  /-- A directory cannot be read. -/
  | refusal (path : Path) (cause : OsError)

/-- What a visitor says to a meeting. -/
def Meeting.elim {β : Type} (visit : Path → NodeKind → List β) (refused : Path → OsError → β) :
    Meeting → List β
  | .place path kind => visit path kind
  | .refusal path cause => [refused path cause]

variable (disk : Disk Id)

/-- What a walk meets, in order. -/
def meetings (depth : Nat) (path : Path) (kind : NodeKind) : List Meeting :=
  (walk disk (fun path kind => pure [.place path kind]) .refusal depth path kind).run

/-- The walk of one level. -/
theorem run_walk_succ {β : Type} (visit : Path → NodeKind → Id (List β))
    (refused : Path → OsError → β) (depth : Nat) (path : Path) (kind : NodeKind) :
    (walk disk visit refused (depth + 1) path kind).run
      = (visit path kind).run ++
        if kind = .directory then
          match (disk.entries path).run with
          | .error e => [refused path e]
          | .ok entries => entries.flatMap fun entry =>
              (walk disk visit refused depth (path.join ⟨entry.name⟩) entry.kind).run
        else [] := by
  rw [walk, Id.run_bind]
  split_ifs
  · rw [Id.run_bind]
    cases (disk.entries path).run with
    | error e => rfl
    | ok entries =>
      dsimp only
      rw [Id.run_bind, List.idRun_mapM, List.flatMap_def]
      rfl
  · rw [List.append_nil]
    rfl

theorem meetings_succ (depth : Nat) (path : Path) (kind : NodeKind) :
    meetings disk (depth + 1) path kind
      = .place path kind ::
        if kind = .directory then
          match (disk.entries path).run with
          | .error e => [.refusal path e]
          | .ok entries => entries.flatMap fun entry =>
              meetings disk depth (path.join ⟨entry.name⟩) entry.kind
        else [] := by
  rw [meetings, run_walk_succ]
  rfl

/-- **A walk is its meetings.** What a walk gives is what its visitor says to one meeting after the
other. -/
theorem walk_eq_flatMap {β : Type} (visit : Path → NodeKind → Id (List β))
    (refused : Path → OsError → β) (depth : Nat) (path : Path) (kind : NodeKind) :
    (walk disk visit refused depth path kind).run
      = (meetings disk depth path kind).flatMap
          (Meeting.elim (fun path kind => (visit path kind).run) refused) := by
  induction depth generalizing path kind with
  | zero => rfl
  | succ depth ih =>
    rw [run_walk_succ, meetings_succ, List.flatMap_cons, Meeting.elim]
    congr 1
    split_ifs
    · cases (disk.entries path).run with
      | error e => rfl
      | ok entries =>
        simp only [ih, List.flatMap_assoc]
    · rfl

/-! ## From the root -/

/-- What a walk takes its root for: the one link that it enters is a root that leads to a
directory. -/
def entered (root : Path) (kind : NodeKind) : NodeKind :=
  if kind = .link ∧ (disk.isDirectory root).run = true then .directory else kind

/-- What a survey's walk meets, from the root on. -/
def rootMeetings (root : Path) : List Meeting :=
  match (disk.kind? root).run, (disk.ownKind root).run with
  | none, _ => []
  | some _, .error e => [.refusal root e]
  | some _, .ok kind => meetings disk maxDepth root (entered disk root kind)

/-- A link that is not entered is met alone. -/
theorem meetings_link (depth : Nat) (path : Path) :
    meetings disk (depth + 1) path .link = [.place path .link] := by
  rw [meetings_succ, if_neg (by decide)]

/-- What a survey finds in the files is what it finds at one meeting after the other. -/
theorem run_files (editor : Editor Id) (changed? : Option (List Url)) (loader : Loader)
    (root : Path) :
    (files disk editor changed? loader root).run
      = (rootMeetings disk root).flatMap
          (Meeting.elim (fun path kind => (findFile disk editor changed? loader path kind).run)
            fun path e => .error (.walk root path e)) := by
  rw [files, Id.run_bind, rootMeetings]
  cases (disk.kind? root).run with
  | none => rfl
  | some target =>
    dsimp only
    rw [Id.run_bind]
    rcases (disk.ownKind root).run with e | kind
    · rfl
    · cases kind with
      | link =>
        dsimp only
        rw [Id.run_bind, entered]
        by_cases hdirectory : (disk.isDirectory root).run = true
        · rw [if_pos hdirectory, if_pos ⟨rfl, hdirectory⟩, walk_eq_flatMap]
        · rw [if_neg hdirectory, if_neg fun h => hdirectory h.2, maxDepth, meetings_link,
            List.flatMap_singleton, Meeting.elim]
      | directory => exact walk_eq_flatMap disk _ _ maxDepth root .directory
      | file => exact walk_eq_flatMap disk _ _ maxDepth root .file
      | other => exact walk_eq_flatMap disk _ _ maxDepth root .other

/-! ## Where a walk has to come -/

/-- What lies at or below a root, through directories and through no link but one at the root. -/
inductive Reaches (root : Path) : Path → NodeKind → Prop
  /-- The root, if it leads anywhere. -/
  | root {target kind : NodeKind} (leads : (disk.kind? root).run = some target)
      (named : (disk.ownKind root).run = .ok kind) : Reaches root root (entered disk root kind)
  /-- An entry of a directory. -/
  | entry {path : Path} {entries : List DirEntry} {entry : DirEntry}
      (reached : Reaches root path .directory) (listed : (disk.entries path).run = .ok entries)
      (mem : entry ∈ entries) : Reaches root (path.join ⟨entry.name⟩) entry.kind

variable {disk}

/-- A walk comes only where it has to come. -/
theorem reaches_of_mem_meetings {root p : Path} {k : NodeKind} {depth : Nat} {path : Path}
    {kind : NodeKind} (hreached : Reaches disk root path kind)
    (hmem : .place p k ∈ meetings disk depth path kind) : Reaches disk root p k := by
  induction depth generalizing path kind with
  | zero => exact absurd hmem List.not_mem_nil
  | succ depth ih =>
    rw [meetings_succ] at hmem
    rcases List.mem_cons.mp hmem with hhere | hbelow
    · cases hhere
      exact hreached
    · split_ifs at hbelow with hdirectory
      · -- Met below an entry, which the root reaches because it reaches the directory.
        subst hdirectory
        cases hentries : (disk.entries path).run with
        | error e =>
          rw [hentries] at hbelow
          exact nomatch List.mem_singleton.mp hbelow
        | ok entries =>
          rw [hentries] at hbelow
          obtain ⟨entry, hentry, hmem⟩ := List.mem_flatMap.mp hbelow
          exact ih (.entry hreached hentries hentry) hmem
      · exact absurd hbelow List.not_mem_nil

/-- Where a walk meets a directory, a walk of one level more meets its entries. -/
theorem entry_mem_meetings {p : Path} {entries : List DirEntry} {entry : DirEntry}
    (hlisted : (disk.entries p).run = .ok entries) (hentry : entry ∈ entries) {depth : Nat}
    {path : Path} {kind : NodeKind} (hmem : .place p .directory ∈ meetings disk depth path kind) :
    .place (p.join ⟨entry.name⟩) entry.kind ∈ meetings disk (depth + 1) path kind := by
  -- The directory is where the walk starts, or it is met by the walk of an entry, which gets the
  -- level more as well.
  induction depth generalizing path kind with
  | zero => exact absurd hmem List.not_mem_nil
  | succ depth ih =>
    rw [meetings_succ] at hmem
    rw [meetings_succ]
    refine List.mem_cons_of_mem _ ?_
    rcases List.mem_cons.mp hmem with hhere | hbelow
    · cases hhere
      rw [if_pos rfl, hlisted]
      -- One level is spent on the directory, the other one on the entry.
      refine List.mem_flatMap.mpr ⟨entry, hentry, ?_⟩
      rw [meetings_succ]
      exact List.mem_cons_self
    · split_ifs at hbelow ⊢
      · cases hentries : (disk.entries path).run with
        | error e =>
          rw [hentries] at hbelow
          exact nomatch List.mem_singleton.mp hbelow
        | ok others =>
          rw [hentries] at hbelow
          obtain ⟨other, hother, hmem⟩ := List.mem_flatMap.mp hbelow
          exact List.mem_flatMap.mpr ⟨other, hother, ih hmem⟩
      · exact absurd hbelow List.not_mem_nil

/-- What a survey's walk meets is below its root. -/
theorem reaches_of_mem_rootMeetings {root p : Path} {k : NodeKind}
    (hmem : .place p k ∈ rootMeetings disk root) : Reaches disk root p k := by
  rw [rootMeetings] at hmem
  cases hleads : (disk.kind? root).run with
  | none =>
    rw [hleads] at hmem
    exact absurd hmem List.not_mem_nil
  | some target =>
    rcases hnamed : (disk.ownKind root).run with e | kind
    · rw [hleads, hnamed] at hmem
      exact nomatch List.mem_singleton.mp hmem
    · rw [hleads, hnamed] at hmem
      exact reaches_of_mem_meetings (.root hleads hnamed) hmem

/-- A deeper walk meets all that a walk meets. -/
theorem meetings_mono {m n : Nat} (hmn : m ≤ n) {path : Path} {kind : NodeKind} {x : Meeting}
    (hx : x ∈ meetings disk m path kind) : x ∈ meetings disk n path kind := by
  induction m generalizing n path kind with
  | zero => exact absurd hx List.not_mem_nil
  | succ m ih =>
    obtain ⟨n, rfl⟩ : ∃ k, n = k + 1 := ⟨n - 1, by omega⟩
    have hle : m ≤ n := by omega
    rw [meetings_succ] at hx
    rw [meetings_succ]
    rcases List.mem_cons.mp hx with hhere | hbelow
    · exact hhere ▸ List.mem_cons_self
    · refine List.mem_cons_of_mem _ ?_
      split_ifs at hbelow ⊢
      · cases hentries : (disk.entries path).run with
        | error e => rwa [hentries] at hbelow
        | ok entries =>
          rw [hentries] at hbelow
          obtain ⟨entry, hentry, hmem⟩ := List.mem_flatMap.mp hbelow
          exact List.mem_flatMap.mpr ⟨entry, hentry, ih hle hmem⟩
      · exact absurd hbelow List.not_mem_nil

section

variable (hdisk : disk.Lawful)

include hdisk

/-- The way to what a root reaches: names joined to the root one after the other. -/
theorem Reaches.exists_names {root p : Path} {k : NodeKind} (h : Reaches disk root p k) :
    ∃ names : List Bytes, (∀ name ∈ names, Path.IsEntryName name)
      ∧ p = root.joinAll names := by
  induction h with
  | root leads named => exact ⟨[], by simp, rfl⟩
  | @entry path entries entry _ listed mem ih =>
    obtain ⟨names, hnames, rfl⟩ := ih
    refine ⟨names ++ [entry.name], ?_, by rw [Path.joinAll, Path.joinAll, List.foldl_append]; rfl⟩
    intro name hname
    rcases List.mem_append.mp hname with hname | hname
    · exact hnames name hname
    · exact List.mem_singleton.mp hname ▸ hdisk.entryName listed entry mem

/-- What a root reaches is met, and the walk that meets it is no deeper than the path is longer than
the root, hence never too deep. -/
theorem Reaches.exists_mem_meetings {root p : Path} {k : NodeKind} (hroot : root.bytes ≠ [])
    (h : Reaches disk root p k) :
    ∃ target kind depth, (disk.kind? root).run = some target
      ∧ (disk.ownKind root).run = .ok kind
      ∧ .place p k ∈ meetings disk depth root (entered disk root kind)
      ∧ root.bytes.length + depth ≤ p.bytes.length + 1 ∧ depth ≤ maxDepth := by
  have hpos : 0 < root.bytes.length := List.length_pos_iff.mpr hroot
  -- The bound on the lengths carries the induction. The bound on the depth does not follow from
  -- itself: it comes anew, from the path of the directory that is listed.
  induction h with
  | @root target kind leads named =>
    refine ⟨target, kind, 1, leads, named, ?_, Nat.le_refl _, by decide⟩
    rw [meetings_succ]
    exact List.mem_cons_self
  | @entry path entries entry _ listed mem ih =>
    obtain ⟨target, kind, depth, leads, named, hmem, hlength, -⟩ := ih
    have hgrows := Path.length_join (hdisk.entryName listed entry mem) path
    have hlimit : path.bytes.length ≤ 4095 := hdisk.pathLimit listed
    have hdepth : depth + 1 ≤ 4096 := by omega
    exact ⟨target, kind, depth + 1, leads, named, entry_mem_meetings listed mem hmem,
      by omega, hdepth⟩

/-- **A walk comes wherever it has to come**, however deep that is, and nowhere else. -/
theorem mem_rootMeetings {root : Path} (hroot : root.bytes ≠ []) {p : Path} {k : NodeKind} :
    .place p k ∈ rootMeetings disk root ↔ Reaches disk root p k := by
  refine ⟨reaches_of_mem_rootMeetings, fun h => ?_⟩
  obtain ⟨target, kind, depth, leads, named, hmem, -, hdepth⟩ :=
    h.exists_mem_meetings hdisk hroot
  rw [rootMeetings, leads, named]
  exact meetings_mono hdepth hmem

end

end Survey

end WorkspaceSession
