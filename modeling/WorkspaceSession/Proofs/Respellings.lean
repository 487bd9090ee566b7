/-
Two spellings of a directory.

Paths are the same if their components are. The components forget empty segments, every `.` that has
something in front of it, and whether there is a slash at the end. The system forgets less: a slash
at the end insists on a directory, so what is no directory may be found under one spelling and not
under another. Of directories this cannot be said (`FileSystem.lookup_directory_congr`), nor of
anything that is named from one (`FileSystem.lookup_join_congr`), as long as no path is too long.
-/
import WorkspaceSession.Proofs.FileLocations
import WorkspaceSession.Proofs.FollowedPaths
import WorkspaceSession.Proofs.Travels

set_option autoImplicit false

namespace WorkspaceSession

namespace Path

/-! ## What is in the components -/

/-- Whether a component goes on from where the components before it lead. -/
def Component.goesOn : Component → Bool
  | .parent => true
  | .name _ => true
  | _ => false

/-- The segments of a path that go on, as its components tell them. -/
def moves (path : Path) : List Bytes :=
  (path.components.filter Component.goesOn).map Component.segment

theorem moves_congr {p q : Path} (h : p.components = q.components) : p.moves = q.moves := by
  rw [moves, moves, h]

theorem Component.ofSegment_eq_none_iff {segment : Bytes} :
    Component.ofSegment segment = none ↔ segment = [] ∨ segment = [dot] := by
  rw [ofSegment]
  split_ifs <;> simp_all

theorem Component.goesOn_of_ofSegment {segment : Bytes} {component : Component}
    (h : Component.ofSegment segment = some component) : component.goesOn = true := by
  rw [ofSegment] at h
  split_ifs at h
  · rw [← Option.some.inj h]
    rfl
  · rw [← Option.some.inj h]
    rfl

theorem filter_components (path : Path) :
    path.components.filter Component.goesOn = path.segments.filterMap Component.ofSegment := by
  have hnamed : (path.segments.filterMap Component.ofSegment).filter Component.goesOn
      = path.segments.filterMap Component.ofSegment := by
    refine List.filter_eq_self.mpr fun component hmem => ?_
    obtain ⟨segment, -, hmeans⟩ := List.mem_filterMap.mp hmem
    exact Component.goesOn_of_ofSegment hmeans
  rw [segments] at hnamed ⊢
  rw [components]
  split_ifs
  · exact hnamed
  · exact hnamed
  · exact hnamed

/-- The segments that go on are those that are neither empty nor `.`. -/
theorem moves_eq_filter (path : Path) :
    path.moves = path.segments.filter fun segment => segment ≠ [] ∧ segment ≠ [dot] := by
  rw [moves, filter_components]
  induction path.segments with
  | nil => rfl
  | cons segment rest ih =>
    cases hmeans : Component.ofSegment segment with
    | none =>
      have hnothing := Component.ofSegment_eq_none_iff.mp hmeans
      rw [List.filterMap_cons_none hmeans, ih,
        List.filter_cons_of_neg fun h =>
          hnothing.elim (of_decide_eq_true h).1 (of_decide_eq_true h).2]
    | some component =>
      have hsomething : ¬(segment = [] ∨ segment = [dot]) := by
        rw [← Component.ofSegment_eq_none_iff, hmeans]
        exact Option.some_ne_none component
      rw [List.filterMap_cons_some hmeans, List.map_cons, ih, Component.segment_ofSegment hmeans,
        List.filter_cons_of_pos (by simpa using hsomething)]

theorem filter_namedSegments (path : Path) :
    path.namedSegments.filter (· ≠ [dot]) = path.moves := by
  rw [moves_eq_filter, namedSegments, List.filter_filter]
  refine List.filter_congr fun segment _ => ?_
  rw [Bool.and_comm, Bool.decide_and]

theorem filterMap_moves (path : Path) :
    path.moves.filterMap Component.ofSegment = path.segments.filterMap Component.ofSegment := by
  rw [moves_eq_filter, List.filterMap_filter]
  refine List.filterMap_congr fun segment _ => ?_
  split_ifs with hmeans
  · rfl
  · refine (Component.ofSegment_eq_none_iff.mpr ?_).symm
    rw [decide_eq_true_eq, not_and_or, not_not, not_not] at hmeans
    exact hmeans

/-- Absolute paths that go on in the same way are the same. -/
theorem components_eq_of_moves {p q : Path} (hp : p.isAbsolute = true) (hq : q.isAbsolute = true)
    (h : p.moves = q.moves) : p.components = q.components := by
  rw [components_of_isAbsolute hp, components_of_isAbsolute hq, ← filterMap_moves,
    ← filterMap_moves, h]

/-- The bytes that a path has in it are those of the segments that go on. -/
theorem mem_bytes_iff (path : Path) {b : UInt8} (hseparator : b ≠ separator) (hdot : b ≠ dot) :
    b ∈ path.bytes ↔ ∃ segment ∈ path.moves, b ∈ segment := by
  have hbytes : b ∈ path.bytes ↔ b ∈ separator :: path.bytes := by simp [hseparator]
  rw [hbytes, ← flatMap_splitWhere, moves_eq_filter, segments]
  simp only [List.mem_flatMap, List.mem_cons, hseparator, false_or, List.mem_filter,
    decide_eq_true_eq]
  refine exists_congr fun segment => ⟨fun h => ⟨⟨h.1, ?_, ?_⟩, h.2⟩, fun h => ⟨h.1.1, h.2⟩⟩
  · rintro rfl
    exact absurd h.2 List.not_mem_nil
  · rintro rfl
    exact hdot (List.mem_singleton.mp h.2)

theorem bytes_eq_nil_iff (path : Path) : path.bytes = [] ↔ path.components = [] := by
  constructor
  · intro h
    rw [components, isAbsolute, h]
    rfl
  · intro h
    by_contra hne
    obtain ⟨b, rest, hbytes⟩ := List.exists_cons_of_ne_nil hne
    obtain ⟨part, more, hparts⟩ :=
      List.exists_cons_of_ne_nil (Text.splitWhere_ne_nil (· = separator) rest)
    rw [components] at h
    split_ifs at h with habsolute hvisible
    -- The first segment begins with the first byte, and is not `.`; so it means something.
    have hb : b ≠ separator := by
      intro heq
      rw [isAbsolute, hbytes, heq] at habsolute
      exact habsolute rfl
    have hsplit : Text.splitWhere (· = separator) path.bytes = (b :: part) :: more := by
      rw [hbytes, Text.splitWhere, if_neg (by simpa using hb), hparts]
    rw [hsplit] at h hvisible
    have hmeans : Component.ofSegment (b :: part) = none :=
      (List.filterMap_eq_nil_iff.mp h) _ List.mem_cons_self
    rcases Component.ofSegment_eq_none_iff.mp hmeans with hempty | hdot
    · exact absurd hempty (List.cons_ne_nil b part)
    · exact hvisible (by rw [hdot]; rfl)

end Path

namespace FileSystem

variable {fs : FileSystem}

/-! ## What is found -/

/-- Where a path leads, unless it is too long. Up to the steps, this is about its components. -/
theorem lookup_eq_of_length_le {path : Path} (h : path.bytes.length ≤ maxPathLength) :
    fs.lookup true path
      = if path.moves.any (·.contains 0) then .error .nulInName
        else if path.components = [] then .error .notFound
        else fs.arrive path.isAbsolute (segments path) := by
  have hnul : path.bytes.contains 0 = path.moves.any (·.contains 0) := by
    rw [Bool.eq_iff_iff, List.contains_iff_mem, Path.mem_bytes_iff path (by decide) (by decide)]
    simp
  rw [lookup_eq_arrive, hnul, if_neg (Nat.not_lt.mpr h)]
  simp only [Path.bytes_eq_nil_iff]

/-- What is named from a directory is found under every spelling of the directory, or under none. -/
theorem lookup_join_congr {p q : Path} (h : p.components = q.components) {name : Bytes}
    (hname : Path.IsEntryName name) (hp : (p.join ⟨name⟩).bytes.length ≤ maxPathLength)
    (hq : (q.join ⟨name⟩).bytes.length ≤ maxPathLength) :
    fs.lookup true (p.join ⟨name⟩) = fs.lookup true (q.join ⟨name⟩) := by
  have hsteps : ∀ base : Path, fs.arrive (base.join ⟨name⟩).isAbsolute (segments (base.join ⟨name⟩))
      = fs.arrive base.isAbsolute (base.moves ++ [name]) := by
    intro base
    have hne : ¬some name = some [] := fun hnil => hname.1 (Option.some.inj hnil)
    rw [segments_eq, Path.getLast?_segments_join hname, if_neg hne, List.append_nil,
      Path.namedSegments_join hname, Path.isAbsolute_join hname, ← Path.filter_namedSegments,
      arrive_filter_append (List.cons_ne_nil name [])]
  have hjoin : (p.join ⟨name⟩).components = (q.join ⟨name⟩).components := by
    rw [Path.components_join hname, Path.components_join hname, h]
  rw [lookup_eq_of_length_le hp, lookup_eq_of_length_le hq, hsteps, hsteps, hjoin,
    Path.moves_congr hjoin, Path.isAbsolute_congr h, Path.moves_congr h]

/-- A slash at the end makes no difference to a directory. -/
theorem arrive_segments_directory_iff (path : Path) (target : Target) :
    fs.arrive path.isAbsolute (segments path) = .ok target ∧ target.IsDirectory fs
      ↔ fs.arrive path.isAbsolute (path.moves ++ [[Path.dot]]) = .ok target
        ∧ target.IsDirectory fs := by
  rw [← Path.filter_namedSegments, arrive_filter_append (List.cons_ne_nil _ []), segments_eq]
  split_ifs
  · rfl
  · rw [List.append_nil, arrive_append_dot_iff]

/-- **A directory is one under every spelling.** -/
theorem lookup_directory_congr {p q : Path} (h : p.components = q.components)
    (hp : p.bytes.length ≤ maxPathLength) (hq : q.bytes.length ≤ maxPathLength) (target : Target) :
    fs.lookup true p = .ok target ∧ target.IsDirectory fs
      ↔ fs.lookup true q = .ok target ∧ target.IsDirectory fs := by
  rw [lookup_eq_of_length_le hp, lookup_eq_of_length_le hq, Path.moves_congr h, h]
  split_ifs
  · rfl
  · rfl
  · rw [arrive_segments_directory_iff, arrive_segments_directory_iff, Path.isAbsolute_congr h,
      Path.moves_congr h]

/-! ## Files -/

theorem filter_segments (path : Path) :
    (segments path).filter (· ≠ [Path.dot]) = path.moves := by
  rw [segments_eq, List.filter_append, Path.filter_namedSegments]
  split_ifs
  · simp
  · simp

/-- What an absolute path leads to is found from the root. -/
theorem exists_travel_of_lookup {path : Path} (habsolute : path.isAbsolute = true) {target : Target}
    (h : fs.lookup true path = .ok target) :
    ∃ place, target = .place place ∧ fs.travel maxLinks [] (segments path) = .ok place := by
  rw [lookup_eq_arrive] at h
  split_ifs at h
  rw [arrive, if_pos habsolute] at h
  cases htravel : fs.travel maxLinks [] (segments path) with
  | error e =>
    rw [htravel] at h
    cases h
  | ok place =>
    rw [htravel] at h
    exact ⟨place, (Except.ok.inj h).symm, rfl⟩

/-- **What is found is the same under every spelling** under which it is found. -/
theorem target_eq_of_components {p q : Path} (h : p.components = q.components)
    (habsolute : p.isAbsolute = true) {target target' : Target}
    (hp : fs.lookup true p = .ok target) (hq : fs.lookup true q = .ok target') :
    target = target' := by
  obtain ⟨place, rfl, hplace⟩ := exists_travel_of_lookup habsolute hp
  obtain ⟨place', rfl, hplace'⟩ :=
    exists_travel_of_lookup ((Path.isAbsolute_congr h).symm.trans habsolute) hq
  have hfound := travel_filter_of_ok hplace
  have hfound' := travel_filter_of_ok hplace'
  rw [filter_segments] at hfound hfound'
  rw [← Path.moves_congr h, hfound] at hfound'
  rw [Except.ok.inj hfound']

theorem exists_lookup_of_read {path : Path} {bytes : Bytes} (h : fs.read path = .ok bytes) :
    ∃ target, fs.lookup true path = .ok target := by
  rw [FileSystem.read] at h
  cases hlookup : fs.lookup true path with
  | error e =>
    rw [hlookup] at h
    cases h
  | ok target => exact ⟨target, rfl⟩

theorem read_eq_of_lookup {p q : Path} (h : fs.lookup true p = fs.lookup true q) :
    fs.read p = fs.read q := by
  rw [FileSystem.read, FileSystem.read, h]

/-- A file has the same content under every spelling under which it is found. -/
theorem content_eq_of_components {p q : Path} (h : p.components = q.components)
    (habsolute : p.isAbsolute = true) {bytes bytes' : Bytes} (hp : fs.read p = .ok bytes)
    (hq : fs.read q = .ok bytes') : bytes = bytes' := by
  obtain ⟨target, hpFound⟩ := exists_lookup_of_read hp
  obtain ⟨target', hqFound⟩ := exists_lookup_of_read hq
  obtain rfl := target_eq_of_components h habsolute hpFound hqFound
  rw [read_eq_of_lookup (hpFound.trans hqFound.symm), hq] at hp
  exact (Except.ok.inj hp).symm

/-- A path can be followed from the root with no link to be followed on the way. -/
def WithoutLinks (fs : FileSystem) (path : Path) : Prop :=
  ∃ place, fs.follow true (segments path).length 0 [] (segments path) = .ok place

/-- A path that passes no link and does not go back is spelled with the names of the place that it
leads to. -/
theorem WithoutLinks.moves_eq {path : Path} (h : fs.WithoutLinks path)
    (habsolute : path.isAbsolute = true) (hforward : .parent ∉ path.components) {place : Place}
    (hfound : fs.lookup true path = .ok (.place place)) : path.moves = place := by
  obtain ⟨direct, hdirect⟩ := h
  rw [follow_eq_travel (by omega)] at hdirect
  obtain ⟨found, hplace, htravel⟩ := exists_travel_of_lookup habsolute hfound
  obtain rfl := Target.place.inj hplace
  have hsteps : [Path.dot, Path.dot] ∉ segments path := by
    intro hmem
    have hnamed : [Path.dot, Path.dot] ∈ path.namedSegments := by
      rw [segments_eq, List.mem_append] at hmem
      refine hmem.resolve_right fun hlast => ?_
      split_ifs at hlast
      · exact absurd (List.mem_singleton.mp hlast) (by decide)
      · exact absurd hlast List.not_mem_nil
    refine hforward ?_
    rw [Path.components_of_isAbsolute habsolute]
    exact List.mem_cons_of_mem _ (List.mem_filterMap.mpr
      ⟨_, (List.mem_filter.mp hnamed).1, rfl⟩)
  have hnames := eq_append_of_travel_zero hdirect hsteps
  rw [List.nil_append, filter_segments] at hnames
  rw [← hnames]
  exact Except.ok.inj ((travel_of_travel_zero hdirect maxLinks).symm.trans htravel)

/-- **One plain spelling.** Two paths to one place that pass no link and do not go back are the
same. -/
theorem components_eq_of_lookup {p q : Path} (hp : p.isAbsolute = true) (hq : q.isAbsolute = true)
    (hpForward : .parent ∉ p.components) (hqForward : .parent ∉ q.components)
    (hpLinks : fs.WithoutLinks p) (hqLinks : fs.WithoutLinks q) {target : Target}
    (hpFound : fs.lookup true p = .ok target) (hqFound : fs.lookup true q = .ok target) :
    p.components = q.components := by
  obtain ⟨place, rfl, -⟩ := exists_travel_of_lookup hp hpFound
  refine Path.components_eq_of_moves hp hq ?_
  rw [hpLinks.moves_eq hp hpForward hpFound, hqLinks.moves_eq hq hqForward hqFound]

end FileSystem

end WorkspaceSession
