/-
A session as a finite map.

The sources of a session are a list in the order of their URLs, and everything that is said about a
session is said of the map behind it: `Session.get?` after an insertion or a removal is the
pointwise update of `get?` before it. These laws hold for every list, in order or not, because
`insertSource` replaces on the first hit in one pass; a session that breaks the order would still be
read through the same equations.

The order is needed once, at the end. Two ordered sessions that give the same answers hold the same
list (`Session.table_eq_of_view`), so an equation between maps is an equation between what a front
end is handed, entry by entry.
-/
import Mathlib.Data.String.Basic
import Mathlib.Data.List.Nodup
import WorkspaceSession.Session

set_option autoImplicit false

namespace WorkspaceSession

/-! ## One insertion into a list of sources -/

/-- An inserted source is found under its own URL, whatever the list was. -/
theorem find?_insertSource_self (source : Source) (sources : List Source) :
    (insertSource source sources).find? (fun s => s.url = source.url) = some source := by
  induction sources with
  | nil => simp [insertSource]
  | cons other rest ih =>
    rw [insertSource]
    -- In front of a later URL, in place of the same one, or further down.
    split_ifs with hlt heq
    · simp
    · simp
    · rw [List.find?_cons_of_neg (by simpa using Ne.symm heq)]
      exact ih

/-- An insertion is not seen under any other URL: the source that it replaces has the same one. -/
theorem find?_insertSource_of_ne {source : Source} {url : Url} (hne : source.url ≠ url)
    (sources : List Source) :
    (insertSource source sources).find? (fun s => s.url = url)
      = sources.find? (fun s => s.url = url) := by
  induction sources with
  | nil => simp [insertSource, hne]
  | cons other rest ih =>
    rw [insertSource]
    split_ifs with hlt heq
    · rw [List.find?_cons_of_neg (by simpa using hne)]
    · rw [List.find?_cons_of_neg (by simpa using hne),
        List.find?_cons_of_neg (by simpa using heq ▸ hne)]
    · simp only [List.find?_cons, ih]

/-- An insertion brings in nothing but the inserted source. -/
theorem mem_of_mem_insertSource {source s : Source} {sources : List Source}
    (h : s ∈ insertSource source sources) : s = source ∨ s ∈ sources := by
  induction sources with
  | nil => simpa [insertSource] using h
  | cons other rest ih =>
    rw [insertSource] at h
    split_ifs at h with hlt heq
    · exact List.mem_cons.mp h
    · rcases List.mem_cons.mp h with h | h
      · exact Or.inl h
      · exact Or.inr (List.mem_cons_of_mem _ h)
    · rcases List.mem_cons.mp h with h | h
      · exact Or.inr (h ▸ List.mem_cons_self)
      · exact (ih h).imp_right (List.mem_cons_of_mem _)

/-! ## The order of the sources -/

/-- Sources in the strict order of their URLs, so at most one for each. -/
def OrderedByUrl (sources : List Source) : Prop :=
  sources.Pairwise fun s t => s.url.text < t.url.text

theorem orderedByUrl_insertSource (source : Source) {sources : List Source}
    (h : OrderedByUrl sources) : OrderedByUrl (insertSource source sources) := by
  induction sources with
  | nil => simp [insertSource, OrderedByUrl]
  | cons other rest ih =>
    obtain ⟨hother, hrest⟩ := List.pairwise_cons.mp h
    rw [insertSource]
    split_ifs with hlt heq
    · refine List.Pairwise.cons ?_ h
      intro s hs
      rcases List.mem_cons.mp hs with rfl | hs
      · exact hlt
      · exact lt_trans hlt (hother s hs)
    · refine List.Pairwise.cons ?_ hrest
      intro s hs
      rw [heq]
      exact hother s hs
    · refine List.Pairwise.cons ?_ (ih hrest)
      intro s hs
      rcases mem_of_mem_insertSource hs with rfl | hs
      · have hne : other.url.text ≠ s.url.text := fun e => heq (congrArg Url.mk e).symm
        exact lt_of_le_of_ne (not_lt.mp hlt) hne
      · exact hother s hs

/-- What a source says, apart from the loader: where the document lies, where its text comes from,
and the text. -/
def Source.view (source : Source) : Path × Origin × String :=
  (source.location, source.origin, source.content)

namespace Session

/-- A session whose sources are in order, as every session is that starts empty. -/
def Ordered (session : Session) : Prop :=
  OrderedByUrl session.sources

theorem ordered_empty (config : Configuration) : (empty config).Ordered :=
  List.Pairwise.nil

/-- A document that is not listed has no source. -/
theorem get?_eq_none_of_not_mem {session : Session} {url : Url} (h : url ∉ session.urls) :
    session.get? url = none := by
  rw [get?, List.find?_eq_none]
  intro s hs hurl
  rw [decide_eq_true_eq] at hurl
  exact h (hurl ▸ List.mem_map_of_mem hs)

/-! ## Adding -/

@[simp] theorem config_insert (session : Session) (source : Source) :
    (session.insert source).1.config = session.config := rfl

/-- Adding a source changes the answer for its own document only. -/
theorem get?_insert (session : Session) (source : Source) (url : Url) :
    (session.insert source).1.get? url
      = if source.url = url then some source else session.get? url := by
  split_ifs with h
  · subst h
    exact find?_insertSource_self source session.sources
  · exact find?_insertSource_of_ne h session.sources

theorem insertAll_cons (session : Session) (source : Source) (sources : List Source) :
    session.insertAll (source :: sources) = (session.insert source).1.insertAll sources := rfl

@[simp] theorem config_insertAll (session : Session) (sources : List Source) :
    (session.insertAll sources).config = session.config := by
  induction sources generalizing session with
  | nil => rfl
  | cons source sources ih => rw [insertAll_cons, ih, config_insert]

/-- After adding sources one after the other, a document has the last one among them that is its
own, or what it had before. -/
theorem get?_insertAll (session : Session) (sources : List Source) (url : Url) :
    (session.insertAll sources).get? url
      = (sources.reverse.find? fun s => s.url = url).or (session.get? url) := by
  induction sources generalizing session with
  | nil => simp [insertAll]
  | cons source sources ih =>
    rw [insertAll_cons, ih, get?_insert, List.reverse_cons, List.find?_append, Option.or_assoc]
    congr 1
    by_cases h : source.url = url
    · simp [h]
    · simp [h]

/-- A source of the session after additions was added or was there before. -/
theorem mem_sources_insertAll {session : Session} {sources : List Source} {s : Source}
    (h : s ∈ (session.insertAll sources).sources) : s ∈ sources ∨ s ∈ session.sources := by
  induction sources generalizing session with
  | nil => exact Or.inr h
  | cons source sources ih =>
    rw [insertAll_cons] at h
    rcases ih h with h | h
    · exact Or.inl (List.mem_cons_of_mem _ h)
    · rcases mem_of_mem_insertSource h with rfl | h
      · exact Or.inl List.mem_cons_self
      · exact Or.inr h

theorem Ordered.insertAll {session : Session} (h : session.Ordered) (sources : List Source) :
    (session.insertAll sources).Ordered := by
  induction sources generalizing session with
  | nil => exact h
  | cons source sources ih =>
    rw [insertAll_cons]
    exact ih (orderedByUrl_insertSource source h)

/-! ## Removing -/

/-- Removing a document's source changes the answer for that document only. -/
theorem get?_erase (session : Session) (url url' : Url) :
    (session.erase url).get? url' = if url = url' then none else session.get? url' := by
  simp only [get?, erase, List.find?_filter]
  split_ifs with h
  · subst h
    simp
  · congr 1
    funext s
    by_cases hs : s.url = url'
    · simp [hs, Ne.symm h]
    · simp [hs]

/-- Removing documents one after the other, without the count. -/
theorem fst_eraseAll (session : Session) (urls : List Url) :
    (session.eraseAll urls).1 = urls.foldl erase session := by
  -- The count takes no part: the fold is followed from any start.
  have hfold : ∀ (urls : List Url) (start : Session × Nat),
      (urls.foldl (fun kept url =>
        (kept.1.erase url, if kept.1.contains url then kept.2 + 1 else kept.2)) start).1
        = urls.foldl erase start.1 := by
    intro urls
    induction urls with
    | nil => intro start; rfl
    | cons url urls ih => intro start; exact ih _
  exact hfold urls (session, 0)

@[simp] theorem config_eraseAll (session : Session) (urls : List Url) :
    (session.eraseAll urls).1.config = session.config := by
  rw [fst_eraseAll]
  induction urls generalizing session with
  | nil => rfl
  | cons url urls ih => rw [List.foldl_cons, ih]; rfl

/-- After a removal in bulk the listed documents have no source and all others keep theirs. -/
theorem get?_eraseAll (session : Session) (urls : List Url) (url : Url) :
    (session.eraseAll urls).1.get? url = if url ∈ urls then none else session.get? url := by
  rw [fst_eraseAll]
  induction urls generalizing session with
  | nil => simp
  | cons first urls ih =>
    rw [List.foldl_cons, ih, get?_erase]
    by_cases h : first = url
    · simp [h]
    · simp [h, Ne.symm h]

/-- What is left after a removal in bulk was there before and is not listed. -/
theorem mem_sources_eraseAll {session : Session} {urls : List Url} {s : Source}
    (h : s ∈ (session.eraseAll urls).1.sources) : s ∈ session.sources ∧ s.url ∉ urls := by
  rw [fst_eraseAll] at h
  induction urls generalizing session with
  | nil => exact ⟨h, List.not_mem_nil⟩
  | cons url urls ih =>
    obtain ⟨hs, hurls⟩ := ih h
    obtain ⟨hs, hne⟩ := List.mem_filter.mp hs
    refine ⟨hs, ?_⟩
    rw [List.mem_cons, not_or]
    exact ⟨by simpa using hne, hurls⟩

theorem Ordered.eraseAll {session : Session} (h : session.Ordered) (urls : List Url) :
    (session.eraseAll urls).1.Ordered := by
  rw [fst_eraseAll]
  induction urls generalizing session with
  | nil => exact h
  | cons url urls ih => exact ih (List.Pairwise.filter _ h)

/-! ## The table of a session -/

/-- What a session says about a document. -/
def view (session : Session) (url : Url) : Option (Path × Origin × String) :=
  (session.get? url).map Source.view

/-- The session as a table from documents to what it says about them, in the order of the URLs. -/
def table (session : Session) : List (Url × Path × Origin × String) :=
  session.sources.map fun s => (s.url, s.view)

/-- In an ordered session `get?` finds every source that there is. -/
theorem Ordered.get?_eq_some_iff {session : Session} (h : session.Ordered) {url : Url}
    {s : Source} : session.get? url = some s ↔ s ∈ session.sources ∧ s.url = url := by
  constructor
  · intro hs
    exact ⟨List.mem_of_find?_eq_some hs, by simpa using List.find?_some hs⟩
  · rintro ⟨hs, rfl⟩
    -- The first hit is the only one, as the URLs of an ordered session are all different.
    obtain ⟨config, sources⟩ := session
    simp only [get?, Ordered] at h hs ⊢
    induction sources with
    | nil => exact absurd hs List.not_mem_nil
    | cons other rest ih =>
      obtain ⟨hother, hrest⟩ := List.pairwise_cons.mp h
      rcases List.mem_cons.mp hs with rfl | hs
      · simp
      · have hne : other.url ≠ s.url := fun e => lt_irrefl _ (e ▸ hother s hs)
        rw [List.find?_cons_of_neg (by simpa using hne)]
        exact ih hrest hs

theorem Ordered.mem_table_iff {session : Session} (h : session.Ordered)
    (row : Url × Path × Origin × String) :
    row ∈ session.table ↔ session.view row.1 = some row.2 := by
  obtain ⟨url, row⟩ := row
  simp only [table, view, List.mem_map, Option.map_eq_some_iff, h.get?_eq_some_iff]
  constructor
  · rintro ⟨s, hs, heq⟩
    obtain ⟨rfl, rfl⟩ := Prod.mk.injEq _ _ _ _ ▸ heq
    exact ⟨s, ⟨hs, rfl⟩, rfl⟩
  · rintro ⟨s, ⟨hs, rfl⟩, rfl⟩
    exact ⟨s, hs, rfl⟩

theorem Ordered.table_pairwise {session : Session} (h : session.Ordered) :
    session.table.Pairwise fun row row' => row.1.text < row'.1.text :=
  List.Pairwise.map _ (fun _ _ hlt => hlt) h

theorem Ordered.table_nodup {session : Session} (h : session.Ordered) : session.table.Nodup := by
  refine h.table_pairwise.imp ?_
  rintro row row' hlt rfl
  exact lt_irrefl _ hlt

/-- **Extensionality.** Two ordered sessions that say the same about every document are the same
table. -/
theorem table_eq_of_view {session session' : Session} (h : session.Ordered)
    (h' : session'.Ordered) (hview : ∀ url, session.view url = session'.view url) :
    session.table = session'.table := by
  -- Two lists of the same rows in the same strict order are equal; without repetitions, the same
  -- rows are a permutation.
  have hasymm : ∀ row row', row ∈ session.table → row' ∈ session'.table →
      row.1.text < row'.1.text → row'.1.text < row.1.text → row = row' :=
    fun _ _ _ _ hlt hgt => absurd hlt (not_lt.mpr hgt.le)
  have hmem : ∀ row, row ∈ session.table ↔ row ∈ session'.table := by
    intro row
    rw [h.mem_table_iff, h'.mem_table_iff, hview]
  have hperm := (List.perm_ext_iff_of_nodup h.table_nodup h'.table_nodup).mpr hmem
  exact List.Perm.eq_of_pairwise hasymm h.table_pairwise h'.table_pairwise hperm

end Session

end WorkspaceSession
