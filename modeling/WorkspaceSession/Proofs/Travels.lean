/-
Following paths without counting steps.

How many steps may be taken along a path is fixed ahead, from the segments of the path and of the
longest link. The bound is there so that following is defined by recursion on it; it is never felt,
because every step uses up a segment or a link, and a link brings no more segments than the longest
one has (`FileSystem.follow_eq_travel`). Without the bound it shows what the steps are: following
is what is left of a path, read from a place, with the links that may still be followed.

So two paths lead to the same place as soon as their steps do. A `.` with something behind it is no
step at all (`FileSystem.arrive_filter_append`), and a `.` at the very end only insists on a
directory (`FileSystem.arrive_append_dot_iff`).
-/
import Mathlib.Data.List.Induction
import Mathlib.Tactic.Common
import WorkspaceSession.FileSystem.Lookup

set_option autoImplicit false

namespace WorkspaceSession.FileSystem

variable (fs : FileSystem)

/-- Follows segments from a directory, a link at the end too, with as many steps as it takes. -/
def travel : Nat → Place → List Bytes → Except OsError Place
  | _, place, [] => .ok place
  | links, place, segment :: rest =>
    if segment = [Path.dot] then travel links place rest
    else if segment = [Path.dot, Path.dot] then travel links place.dropLast rest
    else if maxNameLength < segment.length then .error .nameTooLong
    else
      let next := place ++ [segment]
      match fs.node? next with
      | none => .error .notFound
      | some .directory => travel links next rest
      | some (.file _) => if rest = [] then .ok next else .error .notDirectory
      | some (.link target) =>
        match links with
        | 0 => .error .tooManyLinks
        | links + 1 =>
          if target.bytes = [] then .error .notFound
          else travel links (if target.isAbsolute then [] else place) (segments target ++ rest)
termination_by links _ steps => (links, steps.length)

/-! ## The longest link -/

/-- A number of segments, or that of a link if it has more. -/
def longer (n : Nat) (entry : Place × Node) : Nat :=
  match entry.2 with
  | .link target => max n (segments target).length
  | _ => n

theorem le_longer (n : Nat) (entry : Place × Node) : n ≤ longer n entry := by
  obtain ⟨place, node⟩ := entry
  cases node with
  | directory => exact Nat.le_refl n
  | file content => exact Nat.le_refl n
  | link target => exact Nat.le_max_left n _

/-- The number of segments of the longest link. -/
def longestLink : Nat :=
  fs.nodes.foldl longer 0

theorem followBudget_eq (steps : List Bytes) :
    fs.followBudget steps = steps.length + (maxLinks + 1) * (fs.longestLink + 1) :=
  rfl

variable {fs}

/-- No link has more segments than the longest one. -/
theorem length_segments_le_longestLink {place : Place} {target : Path}
    (h : fs.node? place = some (.link target)) :
    (segments target).length ≤ fs.longestLink := by
  have hmax : ∀ (nodes : List (Place × Node)) (n : Nat), n ≤ nodes.foldl longer n
      ∧ ∀ place, (place, .link target) ∈ nodes →
        (segments target).length ≤ nodes.foldl longer n := by
    intro nodes
    induction nodes with
    | nil => exact fun n => ⟨Nat.le_refl n, fun place hmem => absurd hmem List.not_mem_nil⟩
    | cons entry rest ih =>
      intro n
      obtain ⟨hrest, hmem⟩ := ih (longer n entry)
      rw [List.foldl_cons]
      refine ⟨Nat.le_trans (le_longer n entry) hrest, fun place hplace => ?_⟩
      rcases List.mem_cons.mp hplace with rfl | hplace
      · exact Nat.le_trans (Nat.le_max_right n _) hrest
      · exact hmem place hplace
  rw [node?] at h
  split_ifs at h
  · exact nomatch h
  · obtain ⟨⟨found, node⟩, hfound, rfl⟩ := Option.map_eq_some_iff.mp h
    exact (hmax fs.nodes 0).2 found (List.mem_of_find?_eq_some hfound)

/-- **The bound is never felt.** -/
theorem follow_eq_travel {budget links : Nat} {place : Place} {steps : List Bytes}
    (h : steps.length + links * fs.longestLink ≤ budget) :
    fs.follow true budget links place steps = fs.travel links place steps := by
  induction budget generalizing links place steps with
  | zero =>
    cases steps with
    | nil => rw [follow, travel]
    | cons segment rest =>
      rw [List.length_cons] at h
      omega
  | succ budget ih =>
    cases steps with
    | nil => rw [follow, travel]
    | cons segment rest =>
      rw [List.length_cons] at h
      have hrest : ∀ place, fs.follow true budget links place rest = fs.travel links place rest :=
        fun place => ih (by omega)
      rw [follow, travel]
      refine ite_congr rfl (fun _ => hrest place) fun _ => ?_
      refine ite_congr rfl (fun _ => hrest place.dropLast) fun _ => ?_
      refine ite_congr rfl (fun _ => rfl) fun _ => ?_
      dsimp only
      cases hnode : fs.node? (place ++ [segment]) with
      | none => rfl
      | some node =>
        cases node with
        | directory => exact hrest _
        | file content => rfl
        | link target =>
          dsimp only
          rw [if_neg (by simp)]
          cases links with
          | zero => rfl
          | succ links =>
            -- The link that is used up makes up for the segments that it brings.
            have hlong := length_segments_le_longestLink hnode
            rw [Nat.add_mul, Nat.one_mul] at h
            refine ite_congr rfl (fun _ => rfl) fun _ => ih ?_
            rw [List.length_append]
            omega

/-! ## Steps -/

/-- What a segment at the front does, whatever stands behind it. -/
inductive Advances (fs : FileSystem) (links : Nat) (place : Place) (segment : Bytes) : Prop
  /-- It leads to a directory. -/
  | passes (next : Place)
      (h : ∀ rest, fs.travel links place (segment :: rest) = fs.travel links next rest)
  /-- It is a link, which uses up one of those that may be followed. -/
  | follows (fewer : Nat) (next : Place) (target : Path) (hfewer : fewer < links)
      (h : ∀ rest, fs.travel links place (segment :: rest)
        = fs.travel fewer next (segments target ++ rest))
  /-- It is a file, with which a way ends. -/
  | ends (next : Place) (hfile : fs.node? next ≠ some .directory)
      (h : ∀ rest, fs.travel links place (segment :: rest)
        = if rest = [] then .ok next else .error .notDirectory)
  /-- It cannot be passed. -/
  | fails (e : OsError) (h : ∀ rest, fs.travel links place (segment :: rest) = .error e)

theorem travel_dot (links : Nat) (place : Place) (rest : List Bytes) :
    fs.travel links place ([Path.dot] :: rest) = fs.travel links place rest := by
  rw [travel, if_pos rfl]

/-- **One step.** -/
theorem advances (fs : FileSystem) (links : Nat) (place : Place) (segment : Bytes) :
    fs.Advances links place segment := by
  by_cases hdot : segment = [Path.dot]
  · exact .passes place fun rest => by rw [hdot, travel_dot]
  by_cases hdots : segment = [Path.dot, Path.dot]
  · exact .passes place.dropLast fun rest => by rw [travel, if_neg hdot, if_pos hdots]
  by_cases hlong : maxNameLength < segment.length
  · exact .fails .nameTooLong fun rest => by rw [travel, if_neg hdot, if_neg hdots, if_pos hlong]
  cases hnode : fs.node? (place ++ [segment]) with
  | none => exact .fails .notFound fun rest => by simp [travel, hdot, hdots, hlong, hnode]
  | some node =>
    cases node with
    | directory =>
      exact .passes (place ++ [segment]) fun rest => by simp [travel, hdot, hdots, hlong, hnode]
    | file content =>
      exact .ends (place ++ [segment]) (by simp [hnode]) fun rest => by
        simp [travel, hdot, hdots, hlong, hnode]
    | link target =>
      cases links with
      | zero => exact .fails .tooManyLinks fun rest => by simp [travel, hdot, hdots, hlong, hnode]
      | succ fewer =>
        by_cases hempty : target.bytes = []
        · exact .fails .notFound fun rest => by
            simp [travel, hdot, hdots, hlong, hnode, hempty]
        · refine .follows fewer (if target.isAbsolute then [] else place) target
            (Nat.lt_succ_self fewer) fun rest => ?_
          simp [travel, hdot, hdots, hlong, hnode, hempty]

/-- **A `.` in front of something is no step.** -/
theorem travel_filter_append {after : List Bytes} (hafter : after ≠ []) (links : Nat)
    (place : Place) (front : List Bytes) :
    fs.travel links place (front.filter (· ≠ [Path.dot]) ++ after)
      = fs.travel links place (front ++ after) := by
  cases front with
  | nil => rfl
  | cons segment rest =>
    have hrest := fun place => travel_filter_append hafter links place rest
    by_cases hdot : segment = [Path.dot]
    · rw [List.filter_cons_of_neg (by simp [hdot]), hrest, hdot, List.cons_append, travel_dot]
    · rw [List.filter_cons_of_pos (by simp [hdot]), List.cons_append, List.cons_append]
      cases fs.advances links place segment with
      | passes next h => rw [h, h, hrest]
      | follows fewer next target hfewer h =>
        -- The way goes on along the link, of which the same may be said with one link less.
        have hlink := fun front =>
          travel_filter_append hafter fewer next (segments target ++ front)
        have hplain := hlink rest
        have hfiltered := hlink (rest.filter (· ≠ [Path.dot]))
        simp only [List.filter_append, List.filter_filter, Bool.and_self, List.append_assoc]
          at hplain hfiltered
        rw [h, h, ← hfiltered, hplain]
      | ends next hfile h => rw [h, h, if_neg (by simp [hafter]), if_neg (by simp [hafter])]
      | fails e h => rw [h, h]
termination_by (links, front.length)

/-- **A `.` at the end insists on a directory.** -/
theorem travel_append_dot_iff (links : Nat) (place : Place) (steps : List Bytes) (found : Place) :
    fs.travel links place (steps ++ [[Path.dot]]) = .ok found ∧ fs.node? found = some .directory
      ↔ fs.travel links place steps = .ok found ∧ fs.node? found = some .directory := by
  cases steps with
  | nil => rw [List.nil_append, travel_dot]
  | cons segment rest =>
    rw [List.cons_append]
    cases fs.advances links place segment with
    | passes next h =>
      rw [h, h]
      exact travel_append_dot_iff links next rest found
    | follows fewer next target hfewer h =>
      rw [h, h, ← List.append_assoc]
      exact travel_append_dot_iff fewer next (segments target ++ rest) found
    | ends next hfile h =>
      -- What is found is no directory, and with the `.` it is not even found.
      have hfound : ∀ steps,
          fs.travel links place (segment :: steps) = .ok found → next = found := by
        intro steps hsteps
        rw [h] at hsteps
        split_ifs at hsteps
        exact Except.ok.inj hsteps
      exact iff_of_false (fun hf => hfile (hfound _ hf.1 ▸ hf.2))
        fun hf => hfile (hfound _ hf.1 ▸ hf.2)
    | fails e h => rw [h, h]
termination_by (links, steps.length)

/-- What is found with a `.` at the end is found without it. -/
theorem travel_of_append_dot {links : Nat} {place : Place} {steps : List Bytes} {found : Place}
    (h : fs.travel links place (steps ++ [[Path.dot]]) = .ok found) :
    fs.travel links place steps = .ok found := by
  cases steps with
  | nil => rwa [List.nil_append, travel_dot] at h
  | cons segment rest =>
    rw [List.cons_append] at h
    cases fs.advances links place segment with
    | passes next hpasses =>
      rw [hpasses] at h ⊢
      exact travel_of_append_dot h
    | follows fewer next target hfewer hfollows =>
      rw [hfollows, ← List.append_assoc] at h
      rw [hfollows]
      exact travel_of_append_dot h
    | ends next hfile hends =>
      rw [hends, if_neg (by simp)] at h
      exact nomatch h
    | fails e hfails =>
      rw [hfails] at h
      exact nomatch h
termination_by (links, steps.length)

/-- **What is found is found without any `.`.** -/
theorem travel_filter_of_ok {links : Nat} {place : Place} {steps : List Bytes} {found : Place}
    (h : fs.travel links place steps = .ok found) :
    fs.travel links place (steps.filter (· ≠ [Path.dot])) = .ok found := by
  induction steps using List.reverseRecOn with
  | nil => exact h
  | append_singleton front last ih =>
    rw [List.filter_append]
    by_cases hdot : last = [Path.dot]
    · rw [hdot] at h ⊢
      rw [List.filter_cons_of_neg (by simp), List.filter_nil, List.append_nil]
      exact ih (travel_of_append_dot h)
    · rw [List.filter_cons_of_pos (by simpa using hdot), List.filter_nil,
        travel_filter_append (List.cons_ne_nil last []), h]

/-! ## Without links -/

section

variable {place found : Place} {segment : Bytes} {steps : List Bytes}

/-- On a way that needs no link, a name leads to what it names. -/
theorem travel_name_of_zero (h : fs.travel 0 place (segment :: steps) = .ok found)
    (hdot : segment ≠ [Path.dot]) (hdots : segment ≠ [Path.dot, Path.dot]) (links : Nat) :
    fs.travel links place (segment :: steps) = fs.travel links (place ++ [segment]) steps := by
  rw [travel, if_neg hdot, if_neg hdots] at h ⊢
  by_cases hlong : maxNameLength < segment.length
  · rw [if_pos hlong] at h
    exact nomatch h
  · rw [if_neg hlong] at h ⊢
    dsimp only at h ⊢
    cases hnode : fs.node? (place ++ [segment]) with
    | none =>
      rw [hnode] at h
      exact nomatch h
    | some node =>
      rw [hnode] at h
      cases node with
      | directory => rfl
      | file content =>
        dsimp only at h ⊢
        split_ifs at h with hend
        rw [if_pos hend, hend, travel]
      | link target => exact nomatch h

/-- What is found without a link is named by the way, if that does not go back. -/
theorem eq_append_of_travel_zero (h : fs.travel 0 place steps = .ok found)
    (hsteps : [Path.dot, Path.dot] ∉ steps) :
    found = place ++ steps.filter (· ≠ [Path.dot]) := by
  induction steps generalizing place with
  | nil =>
    rw [travel] at h
    rw [← Except.ok.inj h, List.filter_nil, List.append_nil]
  | cons segment rest ih =>
    obtain ⟨hfirst, hrest⟩ := List.ne_and_not_mem_of_not_mem_cons hsteps
    by_cases hdot : segment = [Path.dot]
    · rw [hdot, travel_dot] at h
      rw [List.filter_cons_of_neg (by simpa using hdot)]
      exact ih h hrest
    · rw [travel_name_of_zero h hdot (Ne.symm hfirst)] at h
      rw [List.filter_cons_of_pos (by simpa using hdot), List.append_cons]
      exact ih h hrest

/-- A way that needs no link is the same with any number of them. -/
theorem travel_of_travel_zero (h : fs.travel 0 place steps = .ok found) (links : Nat) :
    fs.travel links place steps = .ok found := by
  induction steps generalizing place with
  | nil =>
    rw [travel] at h ⊢
    exact h
  | cons segment rest ih =>
    by_cases hdot : segment = [Path.dot]
    · rw [hdot, travel_dot] at h ⊢
      exact ih h
    · by_cases hdots : segment = [Path.dot, Path.dot]
      · rw [travel, if_neg hdot, if_pos hdots] at h ⊢
        exact ih h
      · rw [travel_name_of_zero h hdot hdots]
        exact ih ((travel_name_of_zero h hdot hdots 0).symm.trans h)

end

/-! ## From where a path is read -/

/-- Follows segments from the root or from the working directory. -/
def arrive (fs : FileSystem) (absolute : Bool) (steps : List Bytes) : Except OsError Target :=
  if absolute then (fs.travel maxLinks [] steps).map .place
  else if fs.workingAlive then (fs.travel maxLinks fs.workingPlace steps).map .place
  else
    match steps.dropWhile (· = [Path.dot]) with
    | [] => .ok .removedDirectory
    | segment :: rest =>
      if segment = [Path.dot, Path.dot] ∧ fs.node? fs.workingPlace.dropLast = some .directory then
        (fs.travel maxLinks fs.workingPlace.dropLast rest).map .place
      else .error .notFound

theorem follow_followBudget (place : Place) (steps : List Bytes) :
    fs.follow true (fs.followBudget steps) maxLinks place steps
      = fs.travel maxLinks place steps := by
  refine follow_eq_travel ?_
  rw [followBudget_eq, maxLinks]
  omega

/-- **Following a path.** The system follows no path that is empty, too long or not one for it, and
any other path is a matter of its steps. -/
theorem lookup_eq_arrive (path : Path) :
    fs.lookup true path
      = if path.bytes.contains 0 then .error .nulInName
        else if path.bytes = [] then .error .notFound
        else if maxPathLength < path.bytes.length then .error .nameTooLong
        else fs.arrive path.isAbsolute (segments path) := by
  rw [lookup]
  simp only [follow_followBudget]
  rfl

/-- Whether a way leads to a directory. -/
def Target.IsDirectory (fs : FileSystem) : Target → Prop
  | .place found => fs.node? found = some .directory
  | .removedDirectory => True

theorem map_place_isDirectory_iff (answer : Except OsError Place) (target : Target) :
    answer.map .place = .ok target ∧ target.IsDirectory fs
      ↔ ∃ found, target = .place found ∧ answer = .ok found
        ∧ fs.node? found = some .directory := by
  constructor
  · rintro ⟨hmap, hdirectory⟩
    cases answer with
    | error e => exact nomatch hmap
    | ok found =>
      obtain rfl := Except.ok.inj hmap
      exact ⟨found, rfl, rfl, hdirectory⟩
  · rintro ⟨found, rfl, rfl, hdirectory⟩
    exact ⟨rfl, hdirectory⟩

theorem arrive_filter_append {after : List Bytes} (hafter : after ≠ []) (absolute : Bool)
    (front : List Bytes) :
    fs.arrive absolute (front.filter (· ≠ [Path.dot]) ++ after)
      = fs.arrive absolute (front ++ after) := by
  rw [arrive, arrive]
  refine ite_congr rfl (fun _ => by rw [travel_filter_append hafter]) fun _ => ?_
  refine ite_congr rfl (fun _ => by rw [travel_filter_append hafter]) fun _ => ?_
  induction front with
  | nil => rfl
  | cons segment rest ih =>
    by_cases hdot : segment = [Path.dot]
    · rw [List.filter_cons_of_neg (by simp [hdot]), List.cons_append,
        List.dropWhile_cons_of_pos (by simp [hdot])]
      exact ih
    · rw [List.filter_cons_of_pos (by simp [hdot]), List.cons_append, List.cons_append,
        List.dropWhile_cons_of_neg (by simp [hdot]), List.dropWhile_cons_of_neg (by simp [hdot])]
      dsimp only
      rw [travel_filter_append hafter]

theorem arrive_append_dot_iff (absolute : Bool) (steps : List Bytes) (target : Target) :
    fs.arrive absolute (steps ++ [[Path.dot]]) = .ok target ∧ target.IsDirectory fs
      ↔ fs.arrive absolute steps = .ok target ∧ target.IsDirectory fs := by
  have htravel : ∀ place steps,
      (fs.travel maxLinks place (steps ++ [[Path.dot]])).map .place = .ok target
          ∧ target.IsDirectory fs
        ↔ (fs.travel maxLinks place steps).map .place = .ok target ∧ target.IsDirectory fs := by
    intro place steps
    simp only [map_place_isDirectory_iff, travel_append_dot_iff]
  rw [arrive, arrive]
  split_ifs
  · exact htravel [] steps
  · exact htravel fs.workingPlace steps
  · rw [List.dropWhile_append]
    cases hsteps : steps.dropWhile fun segment => decide (segment = [Path.dot]) with
    | nil => simp
    | cons segment rest =>
      rw [if_neg (by simp), List.cons_append]
      dsimp only
      split_ifs
      · exact htravel fs.workingPlace.dropLast rest
      · rfl

end WorkspaceSession.FileSystem
