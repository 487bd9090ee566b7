/-
Normal forms of joined paths.

A relative path behind another one is read on from where that one has led, so what matters of the
path in front is only the stack that reading it has left. A normal form is that stack, written from
the bottom, and reading it makes the same stack again, with the `..` that is kept on the root or in
front of everything (`Path.foldl_normalComponents`). So a path in front may be normalized first, and
a normal form is its own (`Path.normalize_join_normalize`).

Names only add to the stack. What is named from a directory by names alone therefore lies in it,
however the directory is written.
-/
import WorkspaceSession.Proofs.LexicalResolution

set_option autoImplicit false

namespace WorkspaceSession.Path

/-! ## Reading on -/

/-- The stack after a path: its segments are pushed on the start, a `.` in front means nothing. -/
theorem foldl_components (path : Path) :
    path.components.foldl pushComponent []
      = (path.segments.filterMap Component.ofSegment).foldl pushComponent path.start := by
  rw [components, start, ← segments]
  split_ifs
  · rfl
  · rfl
  · rfl

/-- What a relative path does to the normal form in front of it. -/
theorem normalComponents_join (base : Path) {path : Path} (h : path.isAbsolute = false) :
    (base.join path).normalComponents
      = ((path.segments.filterMap Component.ofSegment).foldl pushComponent
          base.normalComponents.reverse).reverse := by
  have hstart : (base.join path).start = base.start := by
    rw [start, start, isAbsolute_join_relative h]
  rw [normalComponents, foldl_components, hstart, filterMap_segments_join_relative h,
    List.foldl_append, ← foldl_components, normalComponents, List.reverse_reverse]

/-! ## Reading a normal form -/

/-- **A normal form is read as it is written**: the start, the `..` that is kept, the names. -/
theorem foldl_normalComponents (path : Path) :
    path.normalComponents.foldl pushComponent [] = path.normalComponents.reverse := by
  have hstart : path.start.foldl pushComponent [] = path.start.reverse := by
    rw [start]
    split_ifs
    · rfl
    · rfl
  have hkept : (keptParent path.climbs).foldl pushComponent path.start.reverse
      = (keptParent path.climbs).reverse ++ path.start.reverse := by
    rcases Nat.mod_two_eq_zero_or_one path.climbs with heven | hodd
    · rw [keptParent_of_even heven]
      rfl
    · rw [keptParent_of_odd hodd, start]
      split_ifs
      · rfl
      · rfl
  rw [normalComponents_eq, List.foldl_append, List.foldl_append, hstart, hkept, namesLeft,
    foldl_pushComponent_names, List.reverse_append, List.reverse_append]

/-- Of an absolute path or a relative one, the normal form is its own. -/
theorem normalComponents_normalize_eq (path : Path) :
    path.normalize.normalComponents = path.normalComponents := by
  rw [normalComponents, components_normalize_eq, foldl_normalComponents, List.reverse_reverse]

/-! ## Names behind a path -/

theorem exists_map_name {components : List Component}
    (h : ∀ c ∈ components, ∃ name, c = .name name) :
    ∃ names : List Bytes, components = names.map .name := by
  induction components with
  | nil => exact ⟨[], rfl⟩
  | cons c rest ih =>
    obtain ⟨⟨name, rfl⟩, hrest⟩ := List.forall_mem_cons.mp h
    obtain ⟨names, rfl⟩ := ih hrest
    exact ⟨name :: names, rfl⟩

/-- A path of names alone is relative, and its segments mean these names. -/
theorem exists_names_of_forall {path : Path}
    (h : ∀ c ∈ path.components, ∃ name, c = .name name) :
    path.isAbsolute = false
      ∧ ∃ names : List Bytes, path.segments.filterMap Component.ofSegment = names.map .name := by
  have hnamed : ∀ c ∈ path.segments.filterMap Component.ofSegment, c ∈ path.components := by
    intro c hc
    rw [components, ← segments]
    split_ifs
    · exact List.mem_cons_of_mem _ hc
    · exact List.mem_cons_of_mem _ hc
    · exact hc
  refine ⟨Bool.eq_false_iff.mpr fun habsolute => ?_, exists_map_name fun c hc => h c (hnamed c hc)⟩
  rw [components_of_isAbsolute habsolute] at h
  obtain ⟨name, hname⟩ := h .root List.mem_cons_self
  exact Component.noConfusion hname

/-- **Normalizing a path in front changes nothing.** The normal form of a joined path is that of the
same relative path behind the normal form of the first one. So a normal form is its own, containment
is that of normal forms, and what is named from a directory by names alone lies in it. -/
theorem normalize_join_normalize :
    (∀ base path : Path, path.isAbsolute = false →
        (base.join path).normalize = (base.normalize.join path).normalize)
    ∧ (∀ path : Path, path.normalize.normalize = path.normalize)
    ∧ (∀ path directory : Path, path.liesIn directory = path.normalize.liesIn directory.normalize)
    ∧ ∀ directory path : Path, (∀ c ∈ path.components, ∃ name, c = .name name) →
        (directory.join path).liesIn directory = true := by
  refine ⟨fun base path hpath => ?_, fun path => ?_, fun path directory => ?_,
    fun directory path hnames => ?_⟩
  · have hjoined : (base.join path).normalComponents
        = (base.normalize.join path).normalComponents := by
      rw [normalComponents_join base hpath, normalComponents_join base.normalize hpath,
        normalComponents_normalize_eq]
    rw [normalize, hjoined]
    rfl
  · exact congrArg ofComponents path.normalComponents_normalize_eq
  · rw [liesIn, liesIn, normalComponents_normalize_eq, normalComponents_normalize_eq]
  · obtain ⟨hrelative, names, hsegments⟩ := exists_names_of_forall hnames
    rw [liesIn, normalComponents_join directory hrelative, hsegments, foldl_pushComponent_names,
      List.reverse_append, List.reverse_reverse, List.reverse_reverse, List.isPrefixOf_iff_prefix]
    exact List.prefix_append _ _

/-- The `..` in front climbs from a relative path and from the root, and is kept in both; the path
behind goes back over a name of the first path, and takes the kept `..` back. -/
theorem normalize_join_normalize_climbing :
    let base : Path := .ofString "/x//../../a/."
    let outside : Path := .ofString "b/../.."
    let path : Path := .ofString "./../..//./c"
    let names : Path := .ofString "c.d//e/."
    path.isAbsolute = false
      ∧ base.normalize = .ofString "/../a" ∧ outside.normalize = .ofString ".."
      ∧ (base.join path).normalize = (base.normalize.join path).normalize
      ∧ (base.join path).normalize = .ofString "/c"
      ∧ (outside.join path).normalize = (outside.normalize.join path).normalize
      ∧ (outside.join path).normalize = .ofString "../c"
      ∧ (outside.join names).liesIn outside = true := by
  intro base outside path names
  obtain ⟨hjoin, -, -, hnames⟩ := normalize_join_normalize
  have hrelative : path.isAbsolute = false := by decide
  have hcomponents : names.components
      = [.name (Bytes.ofString "c.d"), .name (Bytes.ofString "e")] := by
    decide
  refine ⟨hrelative, by decide, by decide, hjoin base path hrelative, by decide,
    hjoin outside path hrelative, by decide, hnames outside names fun c hc => ?_⟩
  rw [hcomponents] at hc
  simp only [List.mem_cons, List.not_mem_nil, or_false] at hc
  rcases hc with rfl | rfl
  · exact ⟨_, rfl⟩
  · exact ⟨_, rfl⟩

end WorkspaceSession.Path
