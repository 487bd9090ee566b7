/-
Paths without links.

A file system follows a path segment by segment, and a lexical normal form drops some of these
without asking it. As long as no link is on the way the two agree: what a path names goes through
real directories from the root on (`FileSystem.realPlace?`), a `..` gives up the last of them, and
so the normal form comes to the same place (`FileSystem.realPlace?_normalize`).

Behind such a path the spelling is forgotten. Names below it are followed from the place that it
leads to (`FileSystem.lookup_joinAll`), with the steps and the links that there would be for the
names alone. The spelling is still felt in one way: it is part of the path, and the system follows
no path that is too long.
-/
import Mathlib.Data.List.Basic
import WorkspaceSession.FileSystem.Lookup
import WorkspaceSession.Proofs.NormalForms

set_option autoImplicit false

namespace WorkspaceSession

namespace Path

/-! ## Segments that name something -/

/-- The segments of a path that are not empty. -/
def namedSegments (path : Path) : List Bytes :=
  path.segments.filter (· ≠ [])

theorem filterMap_namedSegments (path : Path) :
    path.namedSegments.filterMap Component.ofSegment
      = path.segments.filterMap Component.ofSegment := by
  rw [namedSegments, List.filterMap_filter]
  refine List.filterMap_congr fun segment _ => ?_
  split_ifs with h
  · rfl
  · obtain rfl : segment = [] := by simpa using h
    rfl

theorem namedSegments_join {name : Bytes} (h : IsEntryName name) (base : Path) :
    (base.join ⟨name⟩).namedSegments = base.namedSegments ++ [name] := by
  have hname : [name].filter (fun segment => decide (segment ≠ [])) = [name] :=
    List.filter_eq_self.mpr fun segment hsegment => by
      rw [List.mem_singleton.mp hsegment]
      exact decide_eq_true h.1
  rw [namedSegments, namedSegments, segments, segments, bytes_join h]
  split_ifs with hclosed
  · rcases hclosed with hempty | hslash
    · rw [hempty, List.nil_append, h.splitWhere, hname]
      rfl
    · -- The name takes the place of the empty segment behind the last separator.
      obtain ⟨front, hfront⟩ := List.getLast?_eq_some_iff.mp hslash
      rw [hfront, List.append_assoc, List.singleton_append,
        Text.splitWhere_append_cons (by simp), Text.splitWhere_append_cons (by simp),
        List.filter_append, List.filter_append, h.splitWhere, hname]
      simp [Text.splitWhere]
  · rw [Text.splitWhere_append_cons (by simp), List.filter_append, h.splitWhere, hname]

theorem namedSegments_joinAll {names : List Bytes} (h : ∀ name ∈ names, IsEntryName name)
    (base : Path) : (base.joinAll names).namedSegments = base.namedSegments ++ names := by
  induction names generalizing base with
  | nil => exact (List.append_nil _).symm
  | cons name rest ih =>
    have hrest := ih (fun n hn => h n (List.mem_cons_of_mem _ hn)) (base.join ⟨name⟩)
    rw [namedSegments_join (h name List.mem_cons_self), List.append_assoc,
      List.singleton_append] at hrest
    exact hrest

/-- The last segment of a joined path is the name. -/
theorem getLast?_segments_join {name : Bytes} (h : IsEntryName name) (base : Path) :
    (base.join ⟨name⟩).segments.getLast? = some name := by
  rw [segments, bytes_join h]
  split_ifs with hclosed
  · rcases hclosed with hempty | hslash
    · rw [hempty, List.nil_append, h.splitWhere]
      rfl
    · obtain ⟨front, hfront⟩ := List.getLast?_eq_some_iff.mp hslash
      rw [hfront, List.append_assoc, List.singleton_append,
        Text.splitWhere_append_cons (by simp), h.splitWhere]
      exact List.getLast?_concat
  · rw [Text.splitWhere_append_cons (by simp), h.splitWhere]
    exact List.getLast?_concat

theorem mem_bytes_join {name : Bytes} (h : IsEntryName name) (base : Path) {b : UInt8}
    (hb : b ≠ separator) : b ∈ (base.join ⟨name⟩).bytes ↔ b ∈ base.bytes ∨ b ∈ name := by
  rw [bytes_join h]
  split_ifs
  · exact List.mem_append
  · rw [List.mem_append, List.mem_cons]
    simp [hb]

theorem mem_bytes_joinAll {names : List Bytes} (h : ∀ name ∈ names, IsEntryName name)
    (base : Path) {b : UInt8} (hb : b ≠ separator) :
    b ∈ (base.joinAll names).bytes ↔ b ∈ base.bytes ∨ ∃ name ∈ names, b ∈ name := by
  induction names generalizing base with
  | nil => simp [joinAll]
  | cons name rest ih =>
    have hrest := ih (fun n hn => h n (List.mem_cons_of_mem _ hn)) (base.join ⟨name⟩)
    rw [mem_bytes_join (h name List.mem_cons_self) base hb] at hrest
    refine hrest.trans ?_
    simp [or_assoc]

end Path

namespace FileSystem

variable (fs : FileSystem)

/-! ## Real directories -/

/-- The place to which components lead from a place, if every name among them is that of a
directory, and not of a link. -/
def realPlace? (place : Place) : List Path.Component → Option Place
  | [] => some place
  | .name name :: rest =>
    if name.length ≤ maxNameLength ∧ fs.node? (place ++ [name]) = some .directory then
      realPlace? (place ++ [name]) rest
    else none
  | .parent :: rest => realPlace? place.dropLast rest
  | .root :: rest => realPlace? place rest
  | .current :: rest => realPlace? place rest

theorem realPlace?_append (place : Place) (front rest : List Path.Component) :
    fs.realPlace? place (front ++ rest)
      = (fs.realPlace? place front).bind fun next => fs.realPlace? next rest := by
  induction front generalizing place with
  | nil => rfl
  | cons component front ih =>
    cases component with
    | name name =>
      rw [List.cons_append, realPlace?, realPlace?]
      split_ifs
      · exact ih _
      · rfl
    | parent => exact ih _
    | root => exact ih _
    | current => exact ih _

variable {fs}

/-- A kept `..` stands at the root and leads to it. So taking it back changes nothing about the
place, just as taking back a name undoes that name. -/
theorem realPlace?_pushComponent {stack : List Path.Component}
    (hstack : Path.NormalStack [.root] stack) {place next : Place}
    (hplace : fs.realPlace? [] stack.reverse = some place)
    {component : Path.Component} (hnext : fs.realPlace? place [component] = some next) :
    fs.realPlace? [] (Path.pushComponent stack component).reverse = some next := by
  have hput : fs.realPlace? [] (component :: stack).reverse = some next := by
    rw [List.reverse_cons, realPlace?_append, hplace]
    exact hnext
  cases component with
  | root => exact hput
  | name name => exact hput
  | current => exact hplace.trans hnext
  | parent =>
    cases hstack with
    | base => exact hput
    | parent =>
      obtain rfl := Option.some.inj hplace
      exact hnext
    | @name below name hbelow =>
      -- The directory below is where the name was found.
      rw [List.reverse_cons, realPlace?_append] at hplace
      obtain ⟨directory, hdirectory, hname⟩ := Option.bind_eq_some_iff.mp hplace
      rw [realPlace?] at hname
      split_ifs at hname
      obtain rfl := Option.some.inj hname
      have hup : directory = next := by
        rw [← Option.some.inj hnext]
        exact List.dropLast_concat.symm
      exact hup ▸ hdirectory

theorem realPlace?_foldl_pushComponent {stack components : List Path.Component}
    (hstack : Path.NormalStack [.root] stack) (hcomponents : .root ∉ components)
    {place next : Place} (hplace : fs.realPlace? [] stack.reverse = some place)
    (hnext : fs.realPlace? place components = some next) :
    fs.realPlace? [] (components.foldl Path.pushComponent stack).reverse = some next := by
  induction components generalizing stack place with
  | nil => exact hplace.trans hnext
  | cons component rest ih =>
    obtain ⟨hfirst, hrest⟩ := List.ne_and_not_mem_of_not_mem_cons hcomponents
    have hsplit := (realPlace?_append fs place [component] rest).symm.trans hnext
    obtain ⟨between, hbetween, hnext⟩ := Option.bind_eq_some_iff.mp hsplit
    exact ih (hstack.push (Ne.symm hfirst)) hrest (realPlace?_pushComponent hstack hplace hbetween)
      hnext

/-- **Without links the normal form is right.** It leads through real directories to the same
place. -/
theorem realPlace?_normalize {path : Path} (habsolute : path.isAbsolute = true) {place : Place}
    (h : fs.realPlace? [] path.components = some place) :
    fs.realPlace? [] path.normalize.components = some place := by
  rw [Path.components_normalize habsolute, Path.normalComponents]
  rw [Path.components_of_isAbsolute habsolute] at h ⊢
  exact realPlace?_foldl_pushComponent .base (Path.not_root_mem_filterMap_ofSegment path.segments)
    rfl h

/-! ## Following -/

/-- Through real directories one segment takes one step and no link. -/
theorem follow_append {steps : List Bytes} (hsteps : ∀ segment ∈ steps, segment ≠ [])
    {start place : Place}
    (h : fs.realPlace? start (steps.filterMap Path.Component.ofSegment) = some place)
    (followLast : Bool) (budget links : Nat) (rest : List Bytes) :
    fs.follow followLast (steps.length + budget) links start (steps ++ rest)
      = fs.follow followLast budget links place rest := by
  induction steps generalizing start with
  | nil =>
    obtain rfl := Option.some.inj h
    rw [List.length_nil, Nat.zero_add, List.nil_append]
  | cons segment steps ih =>
    have hrest := @ih fun s hs => hsteps s (List.mem_cons_of_mem _ hs)
    have hsegment := hsteps segment List.mem_cons_self
    have hcount : (segment :: steps).length + budget = steps.length + budget + 1 := by
      rw [List.length_cons]
      omega
    rw [hcount, List.cons_append, follow]
    by_cases hdot : segment = [Path.dot]
    · rw [if_pos hdot]
      refine hrest ?_
      rwa [List.filterMap_cons_none (by rw [Path.Component.ofSegment, if_pos (Or.inr hdot)])] at h
    · rw [if_neg hdot]
      have hnamed : ¬(segment = [] ∨ segment = [Path.dot]) := by simp [hsegment, hdot]
      by_cases hdots : segment = [Path.dot, Path.dot]
      · have hmeans : Path.Component.ofSegment segment = some .parent := by
          rw [Path.Component.ofSegment, if_neg hnamed, if_pos hdots]
        rw [if_pos hdots]
        rw [List.filterMap_cons_some hmeans] at h
        exact hrest h
      · have hmeans : Path.Component.ofSegment segment = some (.name segment) := by
          rw [Path.Component.ofSegment, if_neg hnamed, if_neg hdots]
        rw [List.filterMap_cons_some hmeans, realPlace?] at h
        split_ifs at h with hreal
        rw [if_neg hdots, if_neg (Nat.not_lt.mpr hreal.1)]
        dsimp only
        rw [hreal.2]
        exact hrest h

/-- The steps that a path takes are its segments that name something, with one more for a slash at
the end. -/
theorem segments_eq (path : Path) :
    segments path
      = path.namedSegments ++ if path.segments.getLast? = some [] then [[Path.dot]] else [] := by
  rw [segments, Path.namedSegments, Path.segments]
  split_ifs
  · rfl
  · exact (List.append_nil _).symm

/-- Where names below a real directory lead, however the directory is spelled. -/
theorem follow_segments_joinAll {base : Path} {place : Place} (hbase : base.isAbsolute = true)
    (hreal : fs.realPlace? [] base.components = some place) {names : List Bytes}
    (hnames : ∀ name ∈ names, Path.IsEntryName name) (followLast : Bool) :
    fs.follow followLast (fs.followBudget (segments (base.joinAll names))) maxLinks []
        (segments (base.joinAll names))
      = fs.follow followLast (fs.followBudget names) maxLinks place names := by
  have hsteps : ∀ segment ∈ base.namedSegments, segment ≠ [] := fun segment hsegment =>
    of_decide_eq_true (List.mem_filter.mp hsegment).2
  have hplace : fs.realPlace? [] (base.namedSegments.filterMap Path.Component.ofSegment)
      = some place := by
    rw [Path.filterMap_namedSegments]
    rwa [Path.components_of_isAbsolute hbase] at hreal
  have hbudget : ∀ rest : List Bytes, fs.followBudget (base.namedSegments ++ rest)
      = base.namedSegments.length + fs.followBudget rest := by
    intro rest
    rw [followBudget, followBudget, List.length_append, Nat.add_assoc]
  rcases List.eq_nil_or_concat names with rfl | ⟨front, last, rfl⟩
  · -- The directory itself, perhaps with a slash behind it.
    change fs.follow followLast (fs.followBudget (segments base)) maxLinks [] (segments base) = _
    rw [segments_eq, hbudget, follow_append hsteps hplace, follow]
    split_ifs
    · rw [followBudget, List.length_singleton, Nat.add_comm, follow, if_pos rfl, follow]
    · rw [follow]
  · rw [List.concat_eq_append] at hnames ⊢
    have hjoin : base.joinAll (front ++ [last]) = (base.joinAll front).join ⟨last⟩ :=
      List.foldl_append
    have hfinal : (base.joinAll (front ++ [last])).segments.getLast? = some last := by
      rw [hjoin]
      exact Path.getLast?_segments_join (hnames last (by simp)) _
    have hsegments : segments (base.joinAll (front ++ [last]))
        = base.namedSegments ++ (front ++ [last]) := by
      have hne : ¬some last = some [] := fun h => (hnames last (by simp)).1 (Option.some.inj h)
      rw [segments_eq, hfinal, if_neg hne, List.append_nil, Path.namedSegments_joinAll hnames]
    rw [hsegments, hbudget, follow_append hsteps hplace]

/-- **The spelling of a directory is forgotten.** What is named from it leads where the names lead
from its place, unless the whole path is too long. -/
theorem lookup_joinAll {base : Path} {place : Place} (hbase : base.isAbsolute = true)
    (hreal : fs.realPlace? [] base.components = some place) (hnul : 0 ∉ base.bytes)
    {names : List Bytes} (hnames : ∀ name ∈ names, Path.IsEntryName name) (followLast : Bool) :
    fs.lookup followLast (base.joinAll names)
      = if names.any (·.contains 0) then .error .nulInName
        else if maxPathLength < (base.joinAll names).bytes.length then .error .nameTooLong
        else (fs.follow followLast (fs.followBudget names) maxLinks place names).map .place := by
  have habsolute := (Path.isAbsolute_joinAll hnames base).trans hbase
  have hcontains : (base.joinAll names).bytes.contains 0 = names.any (·.contains 0) := by
    rw [Bool.eq_iff_iff, List.contains_iff_mem, Path.mem_bytes_joinAll hnames base (by decide),
      List.any_eq_true]
    simp [hnul]
  have hnonempty : (base.joinAll names).bytes ≠ [] := by
    intro hempty
    rw [Path.isAbsolute, hempty] at habsolute
    exact absurd habsolute (by decide)
  rw [lookup, hcontains, if_neg hnonempty]
  split_ifs
  · rfl
  · rfl
  · dsimp only
    rw [follow_segments_joinAll hbase hreal hnames]

/-- What a path that is found does not hold. -/
theorem nul_not_mem_of_lookup {followLast : Bool} {path : Path} {target : Target}
    (h : fs.lookup followLast path = .ok target) : 0 ∉ path.bytes := by
  intro hmem
  rw [lookup, if_pos (List.contains_iff_mem.mpr hmem)] at h
  exact nomatch h

end FileSystem

end WorkspaceSession
