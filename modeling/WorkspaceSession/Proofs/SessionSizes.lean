/-
How large a session is.

A session in order holds one source for each of its documents, so its size is a number of documents.
An addition that replaces nothing makes it larger by one, a removal makes it smaller by one if there
was anything to remove; the counts that a session keeps while it removes in bulk are then exact.
-/
import WorkspaceSession.Proofs.SessionMap

set_option autoImplicit false

namespace WorkspaceSession.Session

/-! ## Documents -/

theorem mem_urls_iff {session : Session} {url : Url} :
    url ∈ session.urls ↔ ∃ s, session.get? url = some s := by
  rw [← Option.isSome_iff_exists, get?, List.find?_isSome, urls, List.mem_map]
  simp only [decide_eq_true_eq]

theorem contains_iff_mem {session : Session} {url : Url} :
    session.contains url = true ↔ url ∈ session.urls := by
  rw [contains, Option.isSome_iff_exists, mem_urls_iff]

theorem length_urls (session : Session) : session.urls.length = session.size :=
  List.length_map _

theorem Ordered.urls_nodup {session : Session} (h : session.Ordered) : session.urls.Nodup := by
  refine List.pairwise_map.mpr (List.Pairwise.imp ?_ h)
  intro s t hlt heq
  exact lt_irrefl _ (heq ▸ hlt)

/-! ## Adding -/

/-- A source of a new document makes the session larger by one. -/
theorem size_insert {session : Session} {source : Source} (hnew : source.url ∉ session.urls) :
    (session.insert source).1.size = session.size + 1 := by
  obtain ⟨config, sources⟩ := session
  change source.url ∉ sources.map Source.url at hnew
  change (insertSource source sources).length = sources.length + 1
  induction sources with
  | nil => rfl
  | cons other rest ih =>
    obtain ⟨hother, hrest⟩ := List.ne_and_not_mem_of_not_mem_cons hnew
    rw [insertSource, if_neg hother]
    split_ifs
    · rfl
    · rw [List.length_cons, ih hrest, List.length_cons]

theorem mem_urls_insertAll {session : Session} {sources : List Source} {url : Url} :
    url ∈ (session.insertAll sources).urls ↔ url ∈ sources.map Source.url ∨ url ∈ session.urls := by
  rw [mem_urls_iff, ← Option.isSome_iff_exists, get?_insertAll, Option.isSome_or,
    Bool.or_eq_true, List.find?_isSome, Option.isSome_iff_exists, ← mem_urls_iff, List.mem_map]
  simp only [List.mem_reverse, decide_eq_true_eq]

/-- Sources of new documents, all of them different, each make the session larger by one. -/
theorem size_insertAll {session : Session} {sources : List Source}
    (hdistinct : (sources.map Source.url).Nodup) (hnew : ∀ s ∈ sources, s.url ∉ session.urls) :
    (session.insertAll sources).size = session.size + sources.length := by
  induction sources generalizing session with
  | nil => rfl
  | cons source rest ih =>
    obtain ⟨hfirst, hrest⟩ := List.nodup_cons.mp hdistinct
    have hkept : ∀ s ∈ rest, s.url ∉ (session.insert source).1.urls := by
      intro s hs hmem
      have hcases : s.url ∈ [source].map Source.url ∨ s.url ∈ session.urls :=
        mem_urls_insertAll.mp hmem
      rcases hcases with heq | hmem
      · exact hfirst (List.mem_singleton.mp heq ▸ List.mem_map_of_mem hs)
      · exact hnew s (List.mem_cons_of_mem _ hs) hmem
    rw [insertAll_cons, ih hrest hkept, size_insert (hnew source List.mem_cons_self),
      List.length_cons]
    omega

/-- Sources of new documents, all of them different, replace nothing one after the other. -/
theorem insert_insertAll_eq_none {session : Session} {first rest : List Source} {source : Source}
    (hdistinct : ((first ++ source :: rest).map Source.url).Nodup)
    (hnew : source.url ∉ session.urls) :
    ((session.insertAll first).insert source).2 = none := by
  refine get?_eq_none_of_not_mem fun hmem => ?_
  rcases mem_urls_insertAll.mp hmem with hfirst | hkept
  · rw [List.map_append, List.nodup_append] at hdistinct
    exact hdistinct.2.2 _ hfirst source.url List.mem_cons_self rfl
  · exact hnew hkept

/-! ## Removing -/

theorem Ordered.erase {session : Session} (h : session.Ordered) (url : Url) :
    (session.erase url).Ordered :=
  List.Pairwise.filter _ h

theorem Ordered.urls_erase {session : Session} (h : session.Ordered) (url : Url) :
    (session.erase url).urls = session.urls.erase url := by
  rw [h.urls_nodup.erase_eq_filter, urls, urls, List.filter_map]
  refine congrArg (List.map Source.url) (List.filter_congr fun s _ => ?_)
  rw [Function.comp_apply, bne, Bool.beq_eq_decide_eq]
  exact decide_not

/-- A removal takes one source away if the document has one. -/
theorem Ordered.size_erase {session : Session} (h : session.Ordered) (url : Url) :
    (session.erase url).size + (if session.contains url then 1 else 0) = session.size := by
  rw [← length_urls, ← length_urls, h.urls_erase]
  split_ifs with hcontains
  · have hmem := contains_iff_mem.mp hcontains
    have hpos := List.length_pos_of_mem hmem
    rw [List.length_erase_of_mem hmem]
    omega
  · rw [List.erase_of_not_mem (mt contains_iff_mem.mpr hcontains), Nat.add_zero]

theorem eraseAll_cons (session : Session) (url : Url) (urls : List Url) :
    session.eraseAll (url :: urls)
      = (((session.erase url).eraseAll urls).1,
          (if session.contains url then 1 else 0) + ((session.erase url).eraseAll urls).2) := by
  -- The count starts from any number and only grows by what is counted from there on.
  have hfold : ∀ (urls : List Url) (session : Session) (count : Nat),
      urls.foldl (fun (kept : Session × Nat) url =>
          (kept.1.erase url, if kept.1.contains url then kept.2 + 1 else kept.2)) (session, count)
        = ((session.eraseAll urls).1, count + (session.eraseAll urls).2) := by
    intro urls
    induction urls with
    | nil => exact fun session count => rfl
    | cons url urls ih =>
      intro session count
      have hcount := ih (session.erase url)
      rw [eraseAll, List.foldl_cons, List.foldl_cons, hcount, hcount]
      split_ifs
      · rw [Nat.zero_add, Nat.add_assoc]
      · rw [Nat.zero_add]
  refine (hfold urls (session.erase url) _).trans ?_
  split_ifs
  · rfl
  · rfl

/-- What is counted in a removal and what is left are all that there was. -/
theorem Ordered.size_eraseAll {session : Session} (h : session.Ordered) (urls : List Url) :
    (session.eraseAll urls).1.size + (session.eraseAll urls).2 = session.size := by
  induction urls generalizing session with
  | nil => rfl
  | cons url urls ih =>
    have hrest := ih (h.erase url)
    have hfirst := h.size_erase url
    rw [eraseAll_cons]
    dsimp only
    omega

/-- **The count of a removal is exact.** Of different documents that all have a source, all are
counted. -/
theorem Ordered.count_eraseAll {session : Session} (h : session.Ordered) {urls : List Url}
    (hdistinct : urls.Nodup) (hpresent : ∀ url ∈ urls, url ∈ session.urls) :
    (session.eraseAll urls).2 = urls.length := by
  induction urls generalizing session with
  | nil => rfl
  | cons url urls ih =>
    obtain ⟨hfirst, hrest⟩ := List.nodup_cons.mp hdistinct
    have hkept : ∀ other ∈ urls, other ∈ (session.erase url).urls := by
      intro other hother
      have hne : other ≠ url := fun heq => hfirst (heq ▸ hother)
      rw [h.urls_erase, List.mem_erase_of_ne hne]
      exact hpresent other (List.mem_cons_of_mem _ hother)
    have hcontains := contains_iff_mem.mpr (hpresent url List.mem_cons_self)
    rw [eraseAll_cons, if_pos hcontains, ih (h.erase url) hrest hkept, List.length_cons,
      Nat.add_comm]

end WorkspaceSession.Session
