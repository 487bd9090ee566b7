/-
Normal forms of paths.

The normal form is read off a stack: names are put on it and `..` takes one away, or is kept where
there is nothing to take. So a normal form is made of names, with at most one kept `..` in front of
them (`Path.NormalStack`), and pushing its components again gives the same stack. Written behind the
root it is a path again, and that path is its own normal form (`Path.normalComponents_normalize`).

Names behind a path are names behind its normal form. Hence what lies below a directory by its names
lies in it by the normal forms too (`Path.liesIn_joinAll`), and normalizing a path with names behind
it is normalizing the path in front of them (`Path.normalize_joinAll`).
-/
import WorkspaceSession.Proofs.FileLocations

set_option autoImplicit false

namespace WorkspaceSession.Path

/-! ## Names behind a path -/

theorem foldl_pushComponent_names (stack : List Component) (names : List Bytes) :
    (names.map Component.name).foldl pushComponent stack
      = (names.map Component.name).reverse ++ stack := by
  induction names generalizing stack with
  | nil => rfl
  | cons name rest ih =>
    rw [List.map_cons, List.foldl_cons, ih, List.reverse_cons, List.append_assoc]
    rfl

theorem normalComponents_joinAll {names : List Bytes} (hnames : ∀ name ∈ names, IsEntryName name)
    (base : Path) :
    (base.joinAll names).normalComponents = base.normalComponents ++ names.map .name := by
  rw [normalComponents, components_joinAll hnames, List.foldl_append,
    foldl_pushComponent_names, List.reverse_append, List.reverse_reverse, normalComponents]

/-- **Below is within.** What is named from inside a directory lies in it. -/
theorem liesIn_joinAll {names : List Bytes} (hnames : ∀ name ∈ names, IsEntryName name)
    (base : Path) : (base.joinAll names).liesIn base = true := by
  rw [liesIn, normalComponents_joinAll hnames, List.isPrefixOf_iff_prefix]
  exact List.prefix_append _ _

/-- Whether a path lies in a directory is a matter of its components. -/
theorem liesIn_congr {p q : Path} (h : p.components = q.components) (directory : Path) :
    p.liesIn directory = q.liesIn directory := by
  have hnormal : p.normalComponents = q.normalComponents := by
    rw [normalComponents, normalComponents, h]
  rw [liesIn, liesIn, hnormal]

/-! ## Stacks in normal form -/

/-- The stacks that normalizing comes to: names on a base, or on a `..` that had nothing but the
base to take back. The base is the root of an absolute path and nothing for a relative one. -/
inductive NormalStack (base : List Component) : List Component → Prop
  /-- The base alone. -/
  | base : NormalStack base base
  /-- A kept `..`. -/
  | parent : NormalStack base (.parent :: base)
  /-- A name on top. -/
  | name {stack : List Component} (name : Bytes) :
      NormalStack base stack → NormalStack base (.name name :: stack)

theorem NormalStack.push {stack : List Component} (h : NormalStack [.root] stack)
    {component : Component} (hcomponent : component ≠ .root) :
    NormalStack [.root] (pushComponent stack component) := by
  cases component with
  | root => exact absurd rfl hcomponent
  | current => exact h
  | name n => exact .name n h
  | parent =>
    -- A `..` takes back a name or the kept `..`, and is kept on the bare root.
    cases h with
    | base => exact .parent
    | parent => exact .base
    | name n h => exact h

theorem NormalStack.foldl_push {stack : List Component} (h : NormalStack [.root] stack)
    {components : List Component} (hcomponents : .root ∉ components) :
    NormalStack [.root] (components.foldl pushComponent stack) := by
  induction components generalizing stack with
  | nil => exact h
  | cons component rest ih =>
    rw [List.mem_cons, not_or] at hcomponents
    exact ih (h.push (Ne.symm hcomponents.1)) hcomponents.2

/-- Pushing the components of a normal form, from the bottom on, gives the normal form. -/
theorem NormalStack.foldl_reverse {stack : List Component} (h : NormalStack [.root] stack) :
    stack.reverse.foldl pushComponent [] = stack := by
  induction h with
  | base => rfl
  | parent => rfl
  | name n _ ih =>
    rw [List.reverse_cons, List.foldl_append, ih]
    rfl

/-- The root is at the bottom of a normal form and nowhere else. -/
theorem NormalStack.exists_tail {stack : List Component} (h : NormalStack [.root] stack) :
    ∃ tail, stack.reverse = .root :: tail ∧ .root ∉ tail := by
  induction h with
  | base => exact ⟨[], rfl, List.not_mem_nil⟩
  | parent => exact ⟨[.parent], rfl, by simp⟩
  | name n _ ih =>
    obtain ⟨tail, hreverse, htail⟩ := ih
    refine ⟨tail ++ [.name n], ?_, by simp [htail]⟩
    rw [List.reverse_cons, hreverse, List.cons_append]

theorem mem_of_mem_foldl_pushComponent {component : Component} {stack components : List Component}
    (h : component ∈ components.foldl pushComponent stack) :
    component ∈ stack ∨ component ∈ components := by
  induction components generalizing stack with
  | nil => exact Or.inl h
  | cons c rest ih =>
    rcases ih h with hpushed | hrest
    · have hstep : component = c ∨ component ∈ stack := by
        cases c with
        | root => exact List.mem_cons.mp hpushed
        | current => exact Or.inr hpushed
        | name n => exact List.mem_cons.mp hpushed
        | parent =>
          cases stack with
          | nil => exact List.mem_cons.mp hpushed
          | cons top below =>
            cases top with
            | name n => exact Or.inr (List.mem_cons_of_mem _ hpushed)
            | parent => exact Or.inr (List.mem_cons_of_mem _ hpushed)
            | root => exact List.mem_cons.mp hpushed
            | current => exact List.mem_cons.mp hpushed
      rcases hstep with rfl | hstack
      · exact Or.inr List.mem_cons_self
      · exact Or.inl hstack
    · exact Or.inr (List.mem_cons_of_mem _ hrest)

/-! ## Absolute paths -/

theorem normalStack_of_isAbsolute {path : Path} (h : path.isAbsolute = true) :
    NormalStack [.root] (path.components.foldl pushComponent []) := by
  rw [components_of_isAbsolute h]
  exact NormalStack.base.foldl_push (not_root_mem_filterMap_ofSegment path.segments)

/-- The normal form of an absolute path is the root with components behind it that a path can
have there. -/
theorem exists_normalTail {path : Path} (h : path.isAbsolute = true) :
    ∃ tail, path.normalComponents = .root :: tail ∧ ∀ c ∈ tail, c.IsPlain := by
  obtain ⟨tail, hreverse, htail⟩ := (normalStack_of_isAbsolute h).exists_tail
  refine ⟨tail, hreverse, fun c hc => isPlain_of_mem_components h ?_⟩
  have hmem : c ∈ path.components.foldl pushComponent [] := by
    rw [← List.mem_reverse, hreverse]
    exact List.mem_cons_of_mem _ hc
  have hpath := (mem_of_mem_foldl_pushComponent hmem).resolve_left List.not_mem_nil
  rw [components_of_isAbsolute h] at hpath ⊢
  rcases List.mem_cons.mp hpath with rfl | hpath
  · exact absurd hc htail
  · exact hpath

theorem intercalate_cons {α : Type} (separator first : List α) (rest : List (List α)) :
    List.intercalate separator (first :: rest) = first ++ rest.flatMap (separator ++ ·) := by
  induction rest generalizing first with
  | nil => simp [List.intercalate]
  | cons second rest ih =>
    have hrest := ih second
    simp only [List.intercalate] at hrest ⊢
    rw [List.intersperse_cons_cons, List.flatten_cons, List.flatten_cons, hrest,
      List.flatMap_cons, List.append_assoc]

/-- Components behind the root are written each behind a separator. -/
theorem ofComponents_root (tail : List Component) :
    ofComponents (.root :: tail) = ⟨rooted tail⟩ := by
  cases tail with
  | nil => rfl
  | cons c rest =>
    rw [ofComponents, List.map_cons, intercalate_cons, List.flatMap_map]
    · rfl
    · simp

/-- The normal form of an absolute path has the normal components of the path. -/
theorem components_normalize {path : Path} (h : path.isAbsolute = true) :
    path.normalize.components = path.normalComponents := by
  obtain ⟨tail, htail, hplain⟩ := exists_normalTail h
  rw [normalize, htail, ofComponents_root, components_rooted hplain]

theorem isAbsolute_normalize {path : Path} (h : path.isAbsolute = true) :
    path.normalize.isAbsolute = true := by
  obtain ⟨tail, htail, -⟩ := exists_normalTail h
  rw [isAbsolute_iff_head?_components, components_normalize h, htail]
  rfl

/-- **A normal form is its own.** -/
theorem normalComponents_normalize {path : Path} (h : path.isAbsolute = true) :
    path.normalize.normalComponents = path.normalComponents := by
  have hstack := (normalStack_of_isAbsolute h).foldl_reverse
  rw [normalComponents, components_normalize h, normalComponents, hstack]

/-! ## Names behind a normal form -/

theorem Component.IsPlain.segment_ne_nil {component : Component} (h : component.IsPlain) :
    component.segment ≠ [] := by
  intro hempty
  have hmeans := h.2
  rw [hempty] at hmeans
  exact nomatch hmeans

theorem rooted_of_ne_nil {components : List Component} (h : components ≠ []) :
    rooted components = components.flatMap fun c => separator :: c.segment := by
  obtain ⟨c, rest, rfl⟩ := List.exists_cons_of_ne_nil h
  rfl

/-- Joining a name to components that are written behind the root writes one more. -/
theorem join_rooted {tail : List Component} (hplain : ∀ c ∈ tail, c.IsPlain) {name : Bytes}
    (hname : IsEntryName name) :
    (⟨rooted tail⟩ : Path).join ⟨name⟩ = ⟨rooted (tail ++ [.name name])⟩ := by
  refine congrArg Path.mk ((bytes_join hname ⟨rooted tail⟩).trans ?_)
  rcases List.eq_nil_or_concat tail with rfl | ⟨front, last, rfl⟩
  · have hslash : (⟨rooted []⟩ : Path).bytes.getLast? = some separator := rfl
    rw [if_pos (Or.inr hslash)]
    exact congrArg (separator :: ·) (List.append_nil name).symm
  · rw [List.concat_eq_append] at hplain ⊢
    have hlast : last.IsPlain := hplain last (List.mem_append_right _ List.mem_cons_self)
    have hwritten : rooted (front ++ [last])
        = (front.flatMap (fun c => separator :: c.segment) ++ [separator]) ++ last.segment := by
      rw [rooted_of_ne_nil (by simp), List.flatMap_append, List.flatMap_singleton,
        List.append_assoc]
      rfl
    -- The last segment is not empty and holds no separator, so one is put behind it.
    have hopen : ¬(rooted (front ++ [last]) = []
        ∨ (rooted (front ++ [last])).getLast? = some separator) := by
      rw [hwritten, List.getLast?_append, List.getLast?_eq_some_getLast hlast.segment_ne_nil]
      rintro (hnil | hsep)
      · simp at hnil
      · exact hlast.1 (Option.some.inj hsep ▸ List.getLast_mem hlast.segment_ne_nil)
    have hmore : rooted ((front ++ [last]) ++ [.name name])
        = rooted (front ++ [last]) ++ separator :: name := by
      rw [rooted_of_ne_nil (by simp), List.flatMap_append, List.flatMap_singleton,
        ← rooted_of_ne_nil (by simp)]
      rfl
    rw [if_neg hopen, hmore]

/-- Normalizing changes nothing about names behind a path. -/
theorem normalize_joinAll {names : List Bytes} (hnames : ∀ name ∈ names, IsEntryName name)
    {base : Path} (hbase : base.isAbsolute = true) :
    (base.joinAll names).normalize = base.normalize.joinAll names := by
  have hrooted : ∀ {names : List Bytes}, (∀ name ∈ names, IsEntryName name) →
      ∀ {tail : List Component}, (∀ c ∈ tail, c.IsPlain) →
      (⟨rooted tail⟩ : Path).joinAll names = ⟨rooted (tail ++ names.map .name)⟩ := by
    intro names
    induction names with
    | nil =>
      intro _ tail _
      rw [List.map_nil, List.append_nil]
      rfl
    | cons name rest ih =>
      intro hnames tail hplain
      have hname : IsEntryName name := hnames name List.mem_cons_self
      have hmore : ∀ c ∈ tail ++ [.name name], c.IsPlain := by
        intro c hc
        rcases List.mem_append.mp hc with hc | hc
        · exact hplain c hc
        · exact List.mem_singleton.mp hc ▸ hname.isPlain
      have hrest := ih (fun n hn => hnames n (List.mem_cons_of_mem _ hn)) hmore
      rw [List.append_assoc, List.singleton_append] at hrest
      rw [joinAll, List.foldl_cons, join_rooted hplain hname]
      exact hrest
  obtain ⟨tail, htail, hplain⟩ := exists_normalTail hbase
  have hbaseForm : base.normalize = ⟨rooted tail⟩ := by
    rw [normalize, htail, ofComponents_root]
  rw [normalize, normalComponents_joinAll hnames, htail, List.cons_append,
    ofComponents_root, hbaseForm, hrooted hnames hplain]

/-! ## Lengths -/

/-- The number of bytes that components take, each with a separator in front of it. -/
def writtenLength (components : List Component) : Nat :=
  (components.flatMap fun c => separator :: c.segment).length

theorem writtenLength_cons (component : Component) (components : List Component) :
    writtenLength (component :: components)
      = component.segment.length + 1 + writtenLength components := by
  rw [writtenLength, List.flatMap_cons, List.length_append, List.length_cons, writtenLength]

theorem writtenLength_reverse (components : List Component) :
    writtenLength components.reverse = writtenLength components := by
  have hperm := components.reverse_perm.flatMap_right fun c => separator :: c.segment
  exact hperm.length_eq

/-- Normalizing writes nothing that the path has not. -/
theorem writtenLength_foldl_le (components stack : List Component) :
    writtenLength (components.foldl pushComponent stack)
      ≤ writtenLength stack + writtenLength components := by
  induction components generalizing stack with
  | nil => exact Nat.le_refl _
  | cons component rest ih =>
    have hstep : writtenLength (pushComponent stack component)
        ≤ writtenLength stack + (component.segment.length + 1) := by
      have hput : writtenLength (component :: stack)
          ≤ writtenLength stack + (component.segment.length + 1) := by
        rw [writtenLength_cons]
        omega
      have htake : ∀ top below, stack = top :: below →
          writtenLength below ≤ writtenLength stack + (component.segment.length + 1) := by
        rintro top below rfl
        rw [writtenLength_cons]
        omega
      cases component with
      | root => exact hput
      | name n => exact hput
      | current => exact Nat.le_add_right _ _
      | parent =>
        cases stack with
        | nil => exact hput
        | cons top below =>
          cases top with
          | name n => exact htake _ below rfl
          | parent => exact htake _ below rfl
          | root => exact hput
          | current => exact hput
    have hrest := ih (pushComponent stack component)
    rw [List.foldl_cons, writtenLength_cons]
    omega

/-- The parts of a path, each behind a separator, are the path behind one. -/
theorem flatMap_splitWhere (bytes : Bytes) :
    ((Text.splitWhere (· = separator) bytes).flatMap fun part => separator :: part)
      = separator :: bytes := by
  induction bytes with
  | nil => rfl
  | cons b rest ih =>
    rw [Text.splitWhere]
    split_ifs with hb
    · rw [List.flatMap_cons, ih, of_decide_eq_true hb]
      rfl
    · obtain ⟨part, more, hparts⟩ :=
        List.exists_cons_of_ne_nil (Text.splitWhere_ne_nil (· = separator) rest)
      rw [hparts, List.flatMap_cons] at ih
      rw [hparts]
      exact congrArg (fun tail => separator :: b :: tail) (List.cons.inj ih).2

/-- Segments that mean nothing only take bytes. -/
theorem writtenLength_filterMap_le (segments : List Bytes) :
    writtenLength (segments.filterMap Component.ofSegment)
      ≤ (segments.flatMap fun segment => separator :: segment).length := by
  induction segments with
  | nil => exact Nat.le_refl _
  | cons segment rest ih =>
    rw [List.flatMap_cons, List.length_append, List.length_cons]
    cases hmeans : Component.ofSegment segment with
    | none =>
      rw [List.filterMap_cons_none hmeans]
      omega
    | some component =>
      rw [List.filterMap_cons_some hmeans, writtenLength_cons, Component.segment_ofSegment hmeans]
      omega

theorem writtenLength_components_le {path : Path} (h : path.isAbsolute = true) :
    writtenLength path.components ≤ path.bytes.length + 1 := by
  obtain ⟨rest, hbytes⟩ := List.head?_eq_some_iff.mp (of_decide_eq_true h)
  -- The segment in front of the first separator is empty, and the root takes as much.
  have hsegments : path.segments = [] :: Text.splitWhere (· = separator) rest := by
    rw [segments, hbytes, Text.splitWhere]
    rfl
  have hfilter := writtenLength_filterMap_le (Text.splitWhere (· = separator) rest)
  rw [flatMap_splitWhere, List.length_cons] at hfilter
  rw [components_of_isAbsolute h, hsegments, List.filterMap_cons_none rfl, writtenLength_cons]
  have hroot : Component.root.segment.length = 0 := rfl
  rw [hbytes, List.length_cons]
  omega

theorem length_rooted {components : List Component} (h : components ≠ []) :
    (rooted components).length = writtenLength components := by
  rw [rooted_of_ne_nil h, writtenLength]

/-- A normal form is no longer than the path. -/
theorem length_normalize_le {path : Path} (h : path.isAbsolute = true) :
    path.normalize.bytes.length ≤ path.bytes.length := by
  obtain ⟨tail, htail, -⟩ := exists_normalTail h
  have hform : path.normalize = ⟨rooted tail⟩ := by
    rw [normalize, htail, ofComponents_root]
  rw [hform]
  by_cases hnil : tail = []
  · have hnonempty : path.bytes ≠ [] := by
      intro hempty
      rw [isAbsolute, hempty] at h
      exact absurd h (by decide)
    rw [hnil]
    exact List.length_pos_iff.mpr hnonempty
  · have hnormal : writtenLength path.normalComponents ≤ writtenLength path.components := by
      have hfold := writtenLength_foldl_le path.components []
      rw [normalComponents, writtenLength_reverse]
      exact hfold.trans (Nat.le_of_eq (Nat.zero_add _))
    have hwritten := writtenLength_components_le h
    rw [htail, writtenLength_cons] at hnormal
    dsimp only
    rw [length_rooted hnil]
    omega

end WorkspaceSession.Path
