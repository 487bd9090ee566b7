/-
Normal forms and lexical resolution.

Read from left to right, a path names directories, goes back by one with `..`, and climbs with a
`..` that has nothing named to go back from. Lexical resolution leaves what is named at the end. In
front of that stands the root, above which there is nothing to climb to, or, in a relative path, one
`..` for every climb.

The normal form is not quite this. Its stack also takes back a `..` that was kept, so of all climbs
together at most one stays, under the root too, and which paths come out right is a matter of
counting climbs: an even number from the root, at most one in a relative path
(`Path.components_normalize_resolution`). The three stacks, the one of the normal form and the two
of resolution, differ only in what lies below the names (`Path.StandsOn`), so that one induction is
enough for all of them.
-/
import WorkspaceSession.Proofs.NormalForms

set_option autoImplicit false

namespace WorkspaceSession.Path

/-! ## Lexical resolution -/

/-- Puts one more component on a stack whose top is the last component so far. A `..` takes back
the name before it, goes nowhere from the root, and is kept where there is nothing or only such a
`..` before it. -/
def resolveStep (stack : List Component) : Component → List Component
  | .current => stack
  | .parent =>
    match stack with
    | .name _ :: below => below
    | .root :: _ => stack
    | _ => .parent :: stack
  | component => component :: stack

/-- What a path leads to, as far as its own components say. -/
def resolved (path : Path) : List Component :=
  (path.components.foldl resolveStep []).reverse

/-! ## Names and climbs -/

/-- What reading a path leaves. -/
structure Reading where
  /-- How often a `..` had nothing named to go back from. -/
  climbs : Nat
  /-- The names that nothing went back from, the last one first. -/
  names : List Bytes

/-- One more component read. -/
def Reading.step (reading : Reading) : Component → Reading
  | .name n => ⟨reading.climbs, n :: reading.names⟩
  | .parent =>
    match reading.names with
    | [] => ⟨reading.climbs + 1, []⟩
    | _ :: below => ⟨reading.climbs, below⟩
  | _ => reading

/-- A path read from left to right. -/
def reading (path : Path) : Reading :=
  path.components.foldl Reading.step ⟨0, []⟩

/-- How often a path climbs above everything that it has named. -/
def climbs (path : Path) : Nat :=
  path.reading.climbs

/-- The names that are left of a path. -/
def namesLeft (path : Path) : List Component :=
  path.reading.names.reverse.map .name

/-! ## What stacks stand on -/

/-- The stacks of `step` are names on what lies below them after so many climbs. -/
structure StandsOn (step : List Component → Component → List Component)
    (below : Nat → List Component) : Prop where
  /-- A name is put on top. -/
  name : ∀ stack n, step stack (.name n) = .name n :: stack
  /-- A `..` takes back a name. -/
  back : ∀ stack n, step (.name n :: stack) .parent = stack
  /-- A `.` means nothing. -/
  current : ∀ stack, step stack .current = stack
  /-- Without a name on top, a `..` climbs. -/
  climb : ∀ k, step (below k) .parent = below (k + 1)

/-- The stack that belongs to what has been read. -/
def Reading.stack (reading : Reading) (below : Nat → List Component) : List Component :=
  reading.names.map .name ++ below reading.climbs

section

variable {step : List Component → Component → List Component} {below : Nat → List Component}

theorem StandsOn.step_stack (h : StandsOn step below) (reading : Reading) {component : Component}
    (hcomponent : component ≠ .root) :
    step (reading.stack below) component = (reading.step component).stack below := by
  obtain ⟨climbs, names⟩ := reading
  cases component with
  | root => exact absurd rfl hcomponent
  | current => exact h.current _
  | name n => exact h.name _ n
  | parent =>
    cases names with
    | nil => exact h.climb climbs
    | cons n names => exact h.back _ n

theorem StandsOn.foldl_stack (h : StandsOn step below) (reading : Reading)
    {components : List Component} (hcomponents : .root ∉ components) :
    components.foldl step (reading.stack below)
      = (components.foldl Reading.step reading).stack below := by
  induction components generalizing reading with
  | nil => rfl
  | cons component rest ih =>
    rw [List.mem_cons, not_or] at hcomponents
    rw [List.foldl_cons, h.step_stack reading (Ne.symm hcomponents.1), ih _ hcomponents.2]
    rfl

end

/-- Of all climbs together the normal form keeps one or none. -/
def keptParent (climbs : Nat) : List Component :=
  List.replicate (climbs % 2) .parent

theorem keptParent_of_even {climbs : Nat} (h : climbs % 2 = 0) : keptParent climbs = [] := by
  rw [keptParent, h]
  rfl

theorem keptParent_of_odd {climbs : Nat} (h : climbs % 2 = 1) : keptParent climbs = [.parent] := by
  rw [keptParent, h]
  rfl

/-- The normal form keeps a `..` on its base and takes back the kept one. -/
theorem standsOn_pushComponent {base : List Component} (hbase : base = [.root] ∨ base = []) :
    StandsOn pushComponent fun climbs => keptParent climbs ++ base where
  name := fun _ _ => rfl
  back := fun _ _ => rfl
  current := fun _ => rfl
  climb := by
    intro climbs
    rcases Nat.mod_two_eq_zero_or_one climbs with heven | hodd
    · have hnext : (climbs + 1) % 2 = 1 := by omega
      rw [keptParent_of_even heven, keptParent_of_odd hnext]
      rcases hbase with rfl | rfl
      · rfl
      · rfl
    · have hnext : (climbs + 1) % 2 = 0 := by omega
      rw [keptParent_of_odd hodd, keptParent_of_even hnext]
      rfl

/-- From the root there is nothing to climb to. -/
theorem standsOn_resolveStep_root : StandsOn resolveStep fun _ => [.root] where
  name := fun _ _ => rfl
  back := fun _ _ => rfl
  current := fun _ => rfl
  climb := fun _ => rfl

/-- Without a root every climb is kept. -/
theorem standsOn_resolveStep_nil :
    StandsOn resolveStep fun climbs => List.replicate climbs .parent where
  name := fun _ _ => rfl
  back := fun _ _ => rfl
  current := fun _ => rfl
  climb := by
    intro climbs
    cases climbs with
    | zero => rfl
    | succ k => rfl

/-! ## Normal form and resolution from the reading -/

theorem root_not_mem_components {path : Path} (h : path.isAbsolute = false) :
    .root ∉ path.components := by
  intro hmem
  have hnot := not_root_mem_filterMap_ofSegment path.segments
  rw [components, h] at hmem
  simp only [Bool.false_eq_true, if_false] at hmem
  split_ifs at hmem
  · rcases List.mem_cons.mp hmem with hroot | hmem
    · exact absurd hroot (by simp)
    · exact hnot hmem
  · exact hnot hmem

/-- What is beneath the names is written in front of them. -/
theorem Reading.reverse_stack (reading : Reading) (below : Nat → List Component) :
    (reading.stack below).reverse
      = (below reading.climbs).reverse ++ reading.names.reverse.map .name := by
  rw [Reading.stack, List.reverse_append, List.map_reverse]

/-- An absolute path puts the root down first. -/
theorem StandsOn.foldl_of_isAbsolute {step : List Component → Component → List Component}
    {below : Nat → List Component} (h : StandsOn step below) {path : Path}
    (habsolute : path.isAbsolute = true) (hroot : step [] .root = below 0) :
    (path.components.foldl step []).reverse
      = (below path.climbs).reverse ++ path.namesLeft := by
  have hrest := h.foldl_stack ⟨0, []⟩ (not_root_mem_filterMap_ofSegment path.segments)
  have hreading : path.reading
      = (path.segments.filterMap Component.ofSegment).foldl Reading.step ⟨0, []⟩ := by
    rw [reading, components_of_isAbsolute habsolute]
    rfl
  rw [components_of_isAbsolute habsolute, List.foldl_cons, hroot]
  refine (congrArg List.reverse hrest).trans ?_
  rw [Reading.reverse_stack, ← hreading]
  rfl

theorem StandsOn.foldl_of_not_isAbsolute {step : List Component → Component → List Component}
    {below : Nat → List Component} (h : StandsOn step below) {path : Path}
    (hrelative : path.isAbsolute = false) (hempty : below 0 = []) :
    (path.components.foldl step []).reverse
      = (below path.climbs).reverse ++ path.namesLeft := by
  have hstack := h.foldl_stack ⟨0, []⟩ (root_not_mem_components hrelative)
  have hstart : Reading.stack ⟨0, []⟩ below = [] := hempty
  rw [hstart] at hstack
  rw [hstack, Reading.reverse_stack]
  rfl

/-- The root of an absolute path, in front of everything else. -/
def start (path : Path) : List Component :=
  if path.isAbsolute then [.root] else []

/-- **The normal form**: behind the root the names that are left, and in front of them one `..` if
the number of climbs is odd. -/
theorem normalComponents_eq (path : Path) :
    path.normalComponents = path.start ++ keptParent path.climbs ++ path.namesLeft := by
  have hreverse : (keptParent path.climbs).reverse = keptParent path.climbs :=
    List.reverse_replicate
  rw [normalComponents, start]
  cases habsolute : path.isAbsolute with
  | true =>
    have hstack := (standsOn_pushComponent (Or.inl rfl)).foldl_of_isAbsolute habsolute rfl
    rw [hstack, List.reverse_append, hreverse]
    rfl
  | false =>
    have hstack := (standsOn_pushComponent (Or.inr rfl)).foldl_of_not_isAbsolute habsolute rfl
    rw [hstack, List.append_nil, hreverse]
    rfl

/-- How many `..` a path has to keep: none under the root, else one for every climb. -/
def climbsToKeep (path : Path) : Nat :=
  if path.isAbsolute then 0 else path.climbs

/-- **Resolution**: behind the root the names that are left, and in a relative path all climbs in
front of them. -/
theorem resolved_eq (path : Path) :
    path.resolved
      = path.start ++ List.replicate path.climbsToKeep .parent ++ path.namesLeft := by
  rw [resolved, start, climbsToKeep]
  cases habsolute : path.isAbsolute with
  | true => exact standsOn_resolveStep_root.foldl_of_isAbsolute habsolute rfl
  | false =>
    rw [standsOn_resolveStep_nil.foldl_of_not_isAbsolute habsolute rfl, List.reverse_replicate]
    rfl

/-- No climb shows among the names. -/
theorem parent_not_mem_namesLeft (path : Path) : .parent ∉ path.namesLeft := by
  simp [namesLeft]

/-! ## Normal forms written as paths -/

theorem isPlain_of_name_mem_components {path : Path} {name : Bytes}
    (h : .name name ∈ path.components) : (Component.name name).IsPlain := by
  have hnamed : .name name ∈ path.segments.filterMap Component.ofSegment := by
    rw [components] at h
    split_ifs at h
    · exact (List.mem_cons.mp h).resolve_left (by simp)
    · exact (List.mem_cons.mp h).resolve_left (by simp)
    · exact h
  obtain ⟨segment, hsegment, hmeans⟩ := List.mem_filterMap.mp hnamed
  exact Component.isPlain_of_mem_segments hsegment hmeans

/-- Plain components, written one behind the other, are the components of what is written. -/
theorem components_ofComponents {components : List Component} (h : ∀ c ∈ components, c.IsPlain) :
    (ofComponents components).components = components := by
  cases components with
  | nil => rfl
  | cons c rest =>
    have hc : c.IsPlain := h c List.mem_cons_self
    have hnotRoot : c ≠ .root := by
      rintro rfl
      exact hc.segment_ne_nil rfl
    have hwritten : ofComponents (c :: rest)
        = ⟨c.segment ++ rest.flatMap fun c => separator :: c.segment⟩ := by
      rw [ofComponents, List.map_cons, intercalate_cons, List.flatMap_map]
      · rfl
      · simp [hnotRoot]
    have hsegments : (ofComponents (c :: rest)).segments = (c :: rest).map Component.segment := by
      rw [hwritten, segments, splitWhere_append_rooted fun d hd => h d (List.mem_cons_of_mem _ hd),
        hc.splitWhere]
      rfl
    -- What is written starts with the first segment, which is neither empty nor a `.`.
    have hrelative : ¬(ofComponents (c :: rest)).isAbsolute = true := by
      obtain ⟨b, more, hsegment⟩ := List.exists_cons_of_ne_nil hc.segment_ne_nil
      have hb : b ≠ separator := fun e => hc.1 (by rw [hsegment, e]; exact List.mem_cons_self)
      rw [hwritten, isAbsolute, hsegment]
      simpa using hb
    have hfirst : ¬(ofComponents (c :: rest)).segments.head? = some [dot] := by
      intro hdot
      rw [hsegments, List.map_cons, List.head?_cons, Option.some.injEq] at hdot
      have hmeans := hc.2
      rw [hdot] at hmeans
      simp [Component.ofSegment] at hmeans
    rw [Path.components, if_neg hrelative, ← segments, if_neg hfirst, hsegments,
      filterMap_segment h]

/-- The components of a normal form, of an absolute path or a relative one. -/
theorem components_normalize_eq (path : Path) :
    path.normalize.components = path.normalComponents := by
  by_cases habsolute : path.isAbsolute = true
  · exact components_normalize habsolute
  · refine components_ofComponents fun c hc => ?_
    have hform := path.normalComponents_eq
    rw [start, if_neg habsolute, List.nil_append] at hform
    rcases List.mem_append.mp (hform ▸ hc) with hkept | hname
    · rw [List.eq_of_mem_replicate hkept]
      exact ⟨by decide, rfl⟩
    · obtain ⟨name, -, rfl⟩ := List.mem_map.mp hname
      have hpath := mem_of_mem_foldl_pushComponent (List.mem_reverse.mp hc)
      exact isPlain_of_name_mem_components (hpath.resolve_left List.not_mem_nil)

/-! ## Where the two agree -/

theorem start_of_isAbsolute {path : Path} (h : path.isAbsolute = true) : path.start = [.root] :=
  if_pos h

/-- Under the root nothing is in front of the names. -/
theorem resolved_of_isAbsolute {path : Path} (h : path.isAbsolute = true) :
    path.resolved = .root :: path.namesLeft := by
  rw [resolved_eq, start_of_isAbsolute h, climbsToKeep, if_pos h]
  rfl

/-- The two differ in nothing but the number of `..` that they keep. -/
theorem normalComponents_eq_resolved_iff (path : Path) :
    path.normalComponents = path.resolved ↔ path.climbs % 2 = path.climbsToKeep := by
  rw [normalComponents_eq, resolved_eq, keptParent, List.append_left_inj, List.append_right_inj,
    List.replicate_inj]
  exact and_iff_left (Or.inr rfl)

/-- A kept `..` of the directory is behind the root of the path only if the path keeps one too,
and where the path alone keeps one, nothing but the root is in front of it. -/
theorem keptParent_append_prefix_iff (path directory : Path) :
    keptParent directory.climbs ++ directory.namesLeft
        <+: keptParent path.climbs ++ path.namesLeft
      ↔ directory.namesLeft <+: path.namesLeft
        ∧ (directory.climbs % 2 = path.climbs % 2
          ∨ directory.climbs % 2 = 0 ∧ directory.namesLeft = []) := by
  rcases Nat.mod_two_eq_zero_or_one directory.climbs with hdirectory | hdirectory
  · rw [keptParent_of_even hdirectory, List.nil_append]
    rcases Nat.mod_two_eq_zero_or_one path.climbs with hpath | hpath
    · rw [keptParent_of_even hpath, List.nil_append, hdirectory, hpath]
      exact (and_iff_left (Or.inl rfl)).symm
    · rw [keptParent_of_odd hpath, List.singleton_append, hdirectory, hpath]
      constructor
      · intro hfront
        rcases List.prefix_cons_iff.mp hfront with hnil | ⟨rest, hcons, -⟩
        · exact ⟨hnil ▸ List.nil_prefix, Or.inr ⟨rfl, hnil⟩⟩
        · exact absurd (hcons ▸ List.mem_cons_self) directory.parent_not_mem_namesLeft
      · rintro ⟨-, heven | ⟨-, hnil⟩⟩
        · omega
        · rw [hnil]
          exact List.nil_prefix
  · rw [keptParent_of_odd hdirectory, List.singleton_append]
    rcases Nat.mod_two_eq_zero_or_one path.climbs with hpath | hpath
    · rw [keptParent_of_even hpath, List.nil_append]
      constructor
      · intro hfront
        exact absurd (hfront.subset List.mem_cons_self) path.parent_not_mem_namesLeft
      · rintro ⟨-, hsame | ⟨heven, -⟩⟩
        · omega
        · omega
    · rw [keptParent_of_odd hpath, List.singleton_append, List.cons_prefix_cons, hdirectory, hpath,
        eq_self_iff_true, true_and]
      exact (and_iff_left (Or.inl rfl)).symm

/-- Containment against the prefix order of what paths resolve to. -/
theorem liesIn_iff_resolved {path directory : Path} (hpath : path.isAbsolute = true)
    (hdirectory : directory.isAbsolute = true) :
    path.liesIn directory = true
      ↔ directory.resolved <+: path.resolved
        ∧ (directory.climbs % 2 = path.climbs % 2
          ∨ directory.climbs % 2 = 0 ∧ directory.resolved = [.root]) := by
  have hnormal : ∀ {p : Path}, p.isAbsolute = true →
      p.normalComponents = .root :: (keptParent p.climbs ++ p.namesLeft) := by
    intro p hp
    rw [normalComponents_eq, start_of_isAbsolute hp, List.append_assoc, List.singleton_append]
  rw [liesIn, List.isPrefixOf_iff_prefix, hnormal hpath, hnormal hdirectory,
    resolved_of_isAbsolute hpath, resolved_of_isAbsolute hdirectory, List.cons_prefix_cons,
    List.cons_prefix_cons, keptParent_append_prefix_iff, List.cons.injEq]
  simp only [true_and]

/-- **The normal form against resolution.** Both are the root, if the path has one, and the names
that are left, with `..` between them: in the normal form one if the number of climbs is odd, by
resolution none under the root and else one for every climb. So the normal form is the resolution
exactly if an absolute path climbs an even number of times and a relative path at most once, and
containment of absolute paths is containment of what they resolve to exactly if the kept `..` do not
come in between. -/
theorem components_normalize_resolution (path : Path) :
    path.normalize.components
        = path.start ++ List.replicate (path.climbs % 2) .parent ++ path.namesLeft
      ∧ path.resolved
        = path.start ++ List.replicate path.climbsToKeep .parent ++ path.namesLeft
      ∧ (path.normalize.components = path.resolved
        ↔ if path.isAbsolute then path.climbs % 2 = 0 else path.climbs ≤ 1)
      ∧ (path.isAbsolute = true → ∀ directory : Path, directory.isAbsolute = true →
        (path.liesIn directory = true
          ↔ directory.resolved <+: path.resolved
            ∧ (directory.climbs % 2 = path.climbs % 2
              ∨ directory.climbs % 2 = 0 ∧ directory.resolved = [.root]))) := by
  refine ⟨?_, path.resolved_eq, ?_, fun hpath directory => liesIn_iff_resolved hpath⟩
  · rw [components_normalize_eq, normalComponents_eq, keptParent]
  · rw [components_normalize_eq, normalComponents_eq_resolved_iff, climbsToKeep]
    split_ifs
    · rfl
    · omega

/-- A path that climbs twice above the root leads to the same place as its normal form, and lies in
what it names there. -/
theorem components_normalize_resolution_twice :
    let path : Path := .ofString "/proj/../../../lib/A.groovy"
    let directory : Path := .ofString "/lib"
    path.normalize.components = path.resolved ∧ path.liesIn directory = true := by
  intro path directory
  obtain ⟨-, -, hagree, hliesIn⟩ := components_normalize_resolution path
  exact ⟨hagree.mpr (by decide), (hliesIn (by decide) directory (by decide)).mpr (by decide)⟩

/-- The second climb of a relative path takes back the first one, where resolution leaves the path as
it is. A climb from the root stays, where resolution goes nowhere, and then nothing else under the
root lies in the path. -/
theorem normalize_ne_resolved :
    let outside : Path := .ofString "../../lib/A.groovy"
    let above : Path := .ofString "/.."
    let below : Path := .ofString "/lib/A.groovy"
    (outside.resolved = outside.components ∧ outside.normalize = .ofString "lib/A.groovy"
        ∧ outside.normalize.components ≠ outside.resolved)
      ∧ (above.resolved = [.root] ∧ above.normalize = above
        ∧ above.normalize.components ≠ above.resolved)
      ∧ above.resolved <+: below.resolved ∧ below.liesIn above = false := by
  decide

end WorkspaceSession.Path
