/-
Names on a path.

A walk names what it meets by joining one entry name after the other to the root, and its results
are compared as paths, by components. This file is the arithmetic of that: joining an entry name
adds one component at the end (`Path.components_join`) and at least one byte, so the names on the
way can be read off the components, and a path that is not too long has few of them. The other
way round, the components of an absolute path can be written down behind the root and are read back
(`Path.components_rooted`).

All of it comes from one law of cutting at separators, `Text.splitWhere_append_cons`: a separator
cuts a sequence into two that are cut independently.
-/
import Mathlib.Tactic.Common
import WorkspaceSession.Path.Normal

set_option autoImplicit false

namespace WorkspaceSession

/-! ## Cutting at separators -/

namespace Text

variable {α : Type} {isSeparator : α → Bool}

theorem splitWhere_ne_nil (isSeparator : α → Bool) (l : List α) :
    splitWhere isSeparator l ≠ [] := by
  induction l with
  | nil => simp [splitWhere]
  | cons a rest ih =>
    rw [splitWhere]
    split_ifs
    · simp
    · split
      · simp
      · simp

/-- A separator cuts a sequence into two that are cut independently. -/
theorem splitWhere_append_cons {a : α} (ha : isSeparator a = true) (l r : List α) :
    splitWhere isSeparator (l ++ a :: r)
      = splitWhere isSeparator l ++ splitWhere isSeparator r := by
  induction l with
  | nil => simp [splitWhere, ha]
  | cons b l ih =>
    rw [List.cons_append, splitWhere, splitWhere]
    split_ifs with hb
    · rw [ih, List.cons_append]
    · obtain ⟨part, more, hparts⟩ :=
        List.exists_cons_of_ne_nil (splitWhere_ne_nil isSeparator l)
      rw [ih, hparts]
      rfl

/-- No part holds a separator. -/
theorem not_isSeparator_of_mem {l part : List α} (h : part ∈ splitWhere isSeparator l) :
    ∀ a ∈ part, isSeparator a = false := by
  induction l generalizing part with
  | nil =>
    rw [splitWhere, List.mem_singleton] at h
    simp [h]
  | cons b rest ih =>
    rw [splitWhere] at h
    split_ifs at h with hb
    · rcases List.mem_cons.mp h with rfl | h
      · simp
      · exact ih h
    · obtain ⟨first, more, hparts⟩ :=
        List.exists_cons_of_ne_nil (splitWhere_ne_nil isSeparator rest)
      rw [hparts] at h ih
      rcases List.mem_cons.mp h with rfl | h
      · intro a ha
        rcases List.mem_cons.mp ha with rfl | ha
        · simpa using hb
        · exact ih List.mem_cons_self a ha
      · exact ih (List.mem_cons_of_mem _ h)

/-- Without a separator there is one part. -/
theorem splitWhere_eq_singleton {l : List α} (h : ∀ a ∈ l, isSeparator a = false) :
    splitWhere isSeparator l = [l] := by
  induction l with
  | nil => rfl
  | cons a rest ih =>
    rw [splitWhere, if_neg (by simp [h a List.mem_cons_self]),
      ih fun b hb => h b (List.mem_cons_of_mem _ hb)]

end Text

namespace Path

theorem same_iff {p q : Path} : p.same q = true ↔ p.components = q.components :=
  decide_eq_true_iff

theorem same_self (p : Path) : p.same p = true :=
  same_iff.mpr rfl

/-! ## Plain components -/

/-- A component that a path can have behind its start: its segment holds no separator and means
the component again. -/
def Component.IsPlain (component : Component) : Prop :=
  separator ∉ component.segment ∧ Component.ofSegment component.segment = some component

theorem Component.IsPlain.splitWhere {component : Component} (h : component.IsPlain) :
    Text.splitWhere (· = separator) component.segment = [component.segment] := by
  refine Text.splitWhere_eq_singleton fun b hb => ?_
  have hne : b ≠ separator := fun e => h.1 (e ▸ hb)
  simpa using hne

/-! ## Entry names -/

/-- A name that an entry of a directory can have. -/
def IsEntryName (name : Bytes) : Prop :=
  name ≠ [] ∧ separator ∉ name ∧ name ≠ [dot] ∧ name ≠ [dot, dot]

instance (name : Bytes) : Decidable (IsEntryName name) :=
  inferInstanceAs (Decidable (_ ∧ _))

theorem IsEntryName.ofSegment {name : Bytes} (h : IsEntryName name) :
    Component.ofSegment name = some (.name name) := by
  obtain ⟨hempty, -, hdot, hdots⟩ := h
  rw [Component.ofSegment, if_neg (by simp [hempty, hdot]), if_neg hdots]

theorem IsEntryName.isPlain {name : Bytes} (h : IsEntryName name) :
    (Component.name name).IsPlain :=
  ⟨h.2.1, h.ofSegment⟩

theorem IsEntryName.splitWhere {name : Bytes} (h : IsEntryName name) :
    Text.splitWhere (· = separator) name = [name] :=
  h.isPlain.splitWhere

theorem IsEntryName.not_isAbsolute {name : Bytes} (h : IsEntryName name) :
    isAbsolute ⟨name⟩ = false := by
  obtain ⟨hempty, hsep, -⟩ := h
  obtain ⟨b, rest, rfl⟩ := List.exists_cons_of_ne_nil hempty
  have hne : b ≠ separator := fun e => hsep (e ▸ List.mem_cons_self)
  simpa [isAbsolute] using hne

/-! ## Components of a joined path -/

/-- The segments of a path, as they stand between its separators. -/
def segments (path : Path) : List Bytes :=
  Text.splitWhere (· = separator) path.bytes

/-- A relative path is put behind the base and, if need be, a separator between them. -/
theorem bytes_join_relative {path : Path} (h : path.isAbsolute = false) (base : Path) :
    (base.join path).bytes
      = if base.bytes = [] ∨ base.bytes.getLast? = some separator then base.bytes ++ path.bytes
        else base.bytes ++ separator :: path.bytes := by
  rw [join, if_neg (by simp [h])]
  split_ifs
  · rfl
  · rfl

theorem bytes_join {name : Bytes} (h : IsEntryName name) (base : Path) :
    (base.join ⟨name⟩).bytes
      = if base.bytes = [] ∨ base.bytes.getLast? = some separator then base.bytes ++ name
        else base.bytes ++ separator :: name :=
  bytes_join_relative h.not_isAbsolute base

/-- The segments of a relative path come behind those of the base, and the first of them fills an
empty last one. -/
theorem filterMap_segments_join_relative {path : Path} (h : path.isAbsolute = false)
    (base : Path) :
    (base.join path).segments.filterMap Component.ofSegment
      = base.segments.filterMap Component.ofSegment
        ++ path.segments.filterMap Component.ofSegment := by
  rw [segments, segments, segments, bytes_join_relative h]
  split_ifs with hclosed
  · rcases hclosed with hempty | hslash
    · rw [hempty]
      rfl
    · -- The base ends with a separator, behind which its last segment is empty.
      obtain ⟨front, hfront⟩ := List.getLast?_eq_some_iff.mp hslash
      rw [hfront, List.append_assoc, List.singleton_append,
        Text.splitWhere_append_cons (by simp), Text.splitWhere_append_cons (by simp),
        List.filterMap_append, List.filterMap_append]
      simp [Text.splitWhere, Component.ofSegment]
  · rw [Text.splitWhere_append_cons (by simp), List.filterMap_append]

theorem filterMap_segments_join {name : Bytes} (h : IsEntryName name) (base : Path) :
    (base.join ⟨name⟩).segments.filterMap Component.ofSegment
      = base.segments.filterMap Component.ofSegment ++ [.name name] := by
  have hname : (⟨name⟩ : Path).segments = [name] := h.splitWhere
  rw [filterMap_segments_join_relative h.not_isAbsolute, hname,
    List.filterMap_cons_some h.ofSegment, List.filterMap_nil]

/-- A relative path is read from where the base is read. -/
theorem isAbsolute_join_relative {path : Path} (h : path.isAbsolute = false) (base : Path) :
    (base.join path).isAbsolute = base.isAbsolute := by
  cases hbytes : base.bytes with
  | nil =>
    have hjoin : (base.join path).bytes = path.bytes := by
      rw [bytes_join_relative h, if_pos (Or.inl hbytes), hbytes, List.nil_append]
    rw [isAbsolute, hjoin, ← isAbsolute, h, isAbsolute, hbytes]
    rfl
  | cons b rest =>
    -- Whether a path is absolute is a matter of its first byte, which is the one of the base.
    have hhead : ∃ tail, (base.join path).bytes = b :: tail := by
      rw [bytes_join_relative h, hbytes]
      split
      · exact ⟨_, rfl⟩
      · exact ⟨_, rfl⟩
    obtain ⟨tail, htail⟩ := hhead
    rw [isAbsolute, isAbsolute, htail, hbytes, List.head?_cons, List.head?_cons]

theorem isAbsolute_join {name : Bytes} (h : IsEntryName name) (base : Path) :
    (base.join ⟨name⟩).isAbsolute = base.isAbsolute :=
  isAbsolute_join_relative h.not_isAbsolute base

theorem components_of_isAbsolute {path : Path} (h : path.isAbsolute = true) :
    path.components = .root :: path.segments.filterMap Component.ofSegment := by
  rw [components, if_pos h, segments]

/-- Whether a path begins with a `.` that stays visible does not depend on a name behind it. -/
theorem head?_segments_join {name : Bytes} (h : IsEntryName name) (base : Path) :
    (base.join ⟨name⟩).segments.head? = some [dot] ↔ base.segments.head? = some [dot] := by
  have hfirst : ∀ front : Bytes,
      (Text.splitWhere (· = separator) front ++ [name]).head?
        = (Text.splitWhere (· = separator) front ++ [[]]).head? := by
    intro front
    obtain ⟨first, more, hparts⟩ :=
      List.exists_cons_of_ne_nil (Text.splitWhere_ne_nil (· = separator) front)
    rw [hparts]
    rfl
  rw [segments, segments, bytes_join h]
  split_ifs with hclosed
  · rcases hclosed with hempty | hslash
    · have hname : name ≠ [dot] := h.2.2.1
      rw [hempty, List.nil_append, h.splitWhere]
      simp [Text.splitWhere, hname]
    · obtain ⟨front, hfront⟩ := List.getLast?_eq_some_iff.mp hslash
      rw [hfront, List.append_assoc, List.singleton_append,
        Text.splitWhere_append_cons (by simp), Text.splitWhere_append_cons (by simp),
        h.splitWhere, hfirst]
      rfl
  · rw [Text.splitWhere_append_cons (by simp), h.splitWhere, hfirst]
    obtain ⟨first, more, hparts⟩ :=
      List.exists_cons_of_ne_nil (Text.splitWhere_ne_nil (· = separator) base.bytes)
    rw [hparts]
    rfl

/-- **One name more.** Joining an entry name to a path adds the name to its components. -/
theorem components_join {name : Bytes} (h : IsEntryName name) (base : Path) :
    (base.join ⟨name⟩).components = base.components ++ [.name name] := by
  have hnamed := filterMap_segments_join h base
  have habsolute := isAbsolute_join h base
  have hvisible := head?_segments_join h base
  rw [segments, segments] at hnamed hvisible
  rw [components, components, hnamed, habsolute]
  simp only [hvisible]
  split_ifs
  · rfl
  · rfl
  · rfl

/-- The file name of a joined path is the name. -/
theorem fileName?_join {name : Bytes} (h : IsEntryName name) (base : Path) :
    (base.join ⟨name⟩).fileName? = some name := by
  rw [fileName?, components_join h, List.getLast?_concat]

/-- The file name of a path is a matter of its components. -/
theorem fileName?_congr {p q : Path} (h : p.components = q.components) :
    p.fileName? = q.fileName? := by
  rw [fileName?, fileName?, h]

/-- So is its extension. -/
theorem hasExtension_congr {p q : Path} (h : p.components = q.components) (extension : String) :
    p.hasExtension extension = q.hasExtension extension := by
  rw [hasExtension, hasExtension, extension?, extension?, fileName?_congr h]

/-- A path with names joined to it one after the other. -/
def joinAll (base : Path) (names : List Bytes) : Path :=
  names.foldl (fun path name => path.join ⟨name⟩) base

theorem isAbsolute_joinAll {names : List Bytes} (h : ∀ name ∈ names, IsEntryName name)
    (base : Path) : (base.joinAll names).isAbsolute = base.isAbsolute := by
  induction names generalizing base with
  | nil => rfl
  | cons name rest ih =>
    have hrest := ih (fun n hn => h n (List.mem_cons_of_mem _ hn)) (base.join ⟨name⟩)
    exact hrest.trans (isAbsolute_join (h name List.mem_cons_self) base)

theorem components_joinAll {names : List Bytes} (h : ∀ name ∈ names, IsEntryName name)
    (base : Path) : (base.joinAll names).components = base.components ++ names.map .name := by
  induction names generalizing base with
  | nil => exact (List.append_nil _).symm
  | cons name rest ih =>
    have hrest := ih (fun n hn => h n (List.mem_cons_of_mem _ hn)) (base.join ⟨name⟩)
    rw [components_join (h name List.mem_cons_self), List.append_assoc,
      List.singleton_append] at hrest
    exact hrest

/-! ## Paths from components -/

theorem Component.segment_ofSegment {segment : Bytes} {component : Component}
    (h : Component.ofSegment segment = some component) : component.segment = segment := by
  rw [Component.ofSegment] at h
  split_ifs at h with hempty hparent
  · rw [← Option.some.inj h, hparent]
    rfl
  · rw [← Option.some.inj h]
    rfl

/-- What a segment of a path means can stand in a path. -/
theorem Component.isPlain_of_mem_segments {path : Path} {segment : Bytes}
    (hsegment : segment ∈ path.segments) {component : Component}
    (hmeans : Component.ofSegment segment = some component) : component.IsPlain := by
  have hback : component.segment = segment := Component.segment_ofSegment hmeans
  refine ⟨fun hsep => ?_, by rw [hback, hmeans]⟩
  rw [hback] at hsep
  exact absurd (Text.not_isSeparator_of_mem hsegment _ hsep) (by simp)

theorem isPlain_of_mem_components {path : Path} (h : path.isAbsolute = true)
    {component : Component} (hmem : component ∈ path.components.drop 1) : component.IsPlain := by
  rw [components_of_isAbsolute h, List.drop_one, List.tail_cons, List.mem_filterMap] at hmem
  obtain ⟨segment, hsegment, hmeans⟩ := hmem
  exact Component.isPlain_of_mem_segments hsegment hmeans

/-- The bytes of components behind the root, each behind a separator. -/
def rooted : List Component → Bytes
  | [] => [separator]
  | components => components.flatMap fun component => separator :: component.segment

theorem filterMap_segment {components : List Component} (h : ∀ c ∈ components, c.IsPlain) :
    (components.map Component.segment).filterMap Component.ofSegment = components := by
  induction components with
  | nil => rfl
  | cons c rest ih =>
    rw [List.map_cons, List.filterMap_cons_some (h c List.mem_cons_self).2,
      ih fun c' hc' => h c' (List.mem_cons_of_mem _ hc')]

/-- Every component behind its separator is one more segment. -/
theorem splitWhere_append_rooted {components : List Component} (h : ∀ c ∈ components, c.IsPlain)
    (front : Bytes) :
    Text.splitWhere (· = separator)
        (front ++ components.flatMap fun c => separator :: c.segment)
      = Text.splitWhere (· = separator) front ++ components.map Component.segment := by
  induction components generalizing front with
  | nil => rw [List.flatMap_nil, List.append_nil, List.map_nil, List.append_nil]
  | cons c rest ih =>
    have hc : c.IsPlain := h c List.mem_cons_self
    -- What stands behind `c` is cut with the segment of `c` in front of it.
    have hrest := ih (fun c' hc' => h c' (List.mem_cons_of_mem _ hc')) c.segment
    rw [List.flatMap_cons, List.cons_append, Text.splitWhere_append_cons (by simp), hrest,
      hc.splitWhere, List.map_cons, List.singleton_append]

/-- Written behind the root, plain components are the components of the path. -/
theorem components_rooted {components : List Component} (h : ∀ c ∈ components, c.IsPlain) :
    (⟨rooted components⟩ : Path).components = .root :: components := by
  cases components with
  | nil => rfl
  | cons c rest =>
    have habsolute : (⟨rooted (c :: rest)⟩ : Path).isAbsolute = true := rfl
    have hsegments : (⟨rooted (c :: rest)⟩ : Path).segments
        = [] :: (c :: rest).map Component.segment :=
      splitWhere_append_rooted h []
    rw [components_of_isAbsolute habsolute, hsegments, List.filterMap_cons_none rfl,
      filterMap_segment h]

/-! ## Lengths -/

/-- A path grows by at least a byte with every name. -/
theorem length_join {name : Bytes} (h : IsEntryName name) (base : Path) :
    base.bytes.length < (base.join ⟨name⟩).bytes.length := by
  have hpos : 0 < name.length := List.length_pos_iff.mpr h.1
  rw [bytes_join h]
  split_ifs
  · rw [List.length_append]
    omega
  · rw [List.length_append, List.length_cons]
    omega

end Path

end WorkspaceSession
