/-
A session and its history.

A session is a finite map from documents to sources, and what it holds is a matter of what was done
to it: a document has the source that was added for it last, unless it was removed since. The map is
kept as one list in the order of the URLs, so this file follows the list, not only the answers: an
addition puts one source into it and takes out those of the same document, of which there is one at
most (`insertSource_perm`), and a removal in bulk is a filter, however often a document is listed
(`Session.sources_eraseAll`). From this the counts follow that others report.

The order is that of the serialized URLs as bytes. It is kept as the order of their texts, which is
the same (`Bytes.ofString_lt_ofString`).
-/
import Mathlib.Data.List.Dedup
import WorkspaceSession.Proofs.BufferHistories
import WorkspaceSession.Proofs.SessionSizes
import WorkspaceSession.Proofs.TextBytes

set_option autoImplicit false

namespace WorkspaceSession

/-! ## Lists of sources -/

/-- An insertion into sources in order puts one in and takes out those of the same document. -/
theorem insertSource_perm (source : Source) {sources : List Source} (h : OrderedByUrl sources) :
    (insertSource source sources).Perm (source :: sources.filter fun s => s.url ≠ source.url) := by
  induction sources with
  | nil => exact List.Perm.refl _
  | cons other rest ih =>
    obtain ⟨hother, hrest⟩ := List.pairwise_cons.mp h
    rw [insertSource]
    split_ifs with hlt heq
    · -- All sources from here on are of later documents.
      have hkept : (other :: rest).filter (fun s => s.url ≠ source.url) = other :: rest := by
        refine List.filter_eq_self.mpr fun s hs => decide_eq_true fun hurl => ?_
        rcases List.mem_cons.mp hs with rfl | hs
        · exact lt_irrefl _ (hurl ▸ hlt)
        · exact lt_irrefl _ (hurl ▸ hlt.trans (hother s hs))
      rw [hkept]
    · have hkept : rest.filter (fun s => s.url ≠ source.url) = rest := by
        refine List.filter_eq_self.mpr fun s hs => decide_eq_true fun hurl => ?_
        exact lt_irrefl _ (hurl ▸ heq ▸ hother s hs)
      rw [List.filter_cons_of_neg (by simpa using heq.symm), hkept]
    · rw [List.filter_cons_of_pos (by simpa using Ne.symm heq)]
      exact ((ih hrest).cons other).trans (List.Perm.swap ..)

/-- Of sources in order at most one is of a document, so looking for one finds them all. -/
theorem toList_find?_url (url : Url) {sources : List Source} (h : OrderedByUrl sources) :
    (sources.find? fun s => s.url = url).toList = sources.filter fun s => s.url = url := by
  induction sources with
  | nil => rfl
  | cons other rest ih =>
    obtain ⟨hother, hrest⟩ := List.pairwise_cons.mp h
    by_cases hurl : other.url = url
    · have hnone : rest.filter (fun s => s.url = url) = [] := by
        refine List.filter_eq_nil_iff.mpr fun s hs hs' => ?_
        have hsame : s.url = other.url := (of_decide_eq_true hs').trans hurl.symm
        exact lt_irrefl _ (hsame ▸ hother s hs)
      rw [List.find?_cons_of_pos (by simpa using hurl),
        List.filter_cons_of_pos (by simpa using hurl), hnone]
      rfl
    · rw [List.find?_cons_of_neg (by simpa using hurl),
        List.filter_cons_of_neg (by simpa using hurl), ih hrest]

namespace Session

/-! ## Single operations -/

/-- What an addition gives back is what the session held for the document. -/
theorem Ordered.toList_insert {session : Session} (h : session.Ordered) (source : Source) :
    (session.insert source).2.toList
      = session.sources.filter fun s => s.url = source.url :=
  toList_find?_url source.url h

theorem sources_eraseAll (session : Session) (urls : List Url) :
    (session.eraseAll urls).1.sources = session.sources.filter fun s => s.url ∉ urls := by
  rw [fst_eraseAll]
  induction urls generalizing session with
  | nil => exact (List.filter_eq_self.mpr fun _ _ => rfl).symm
  | cons url urls ih =>
    rw [List.foldl_cons, ih, erase, List.filter_filter]
    refine List.filter_congr fun s _ => ?_
    simp only [List.mem_cons, not_or, Bool.decide_and, Bool.and_comm]

/-- A removal counts every document once that is listed and has a source. -/
theorem Ordered.count_eraseAll_dedup {session : Session} (h : session.Ordered) (urls : List Url) :
    (session.eraseAll urls).2 = (urls.dedup.filter fun url => url ∈ session.urls).length := by
  have hsize := h.size_eraseAll urls
  have hsplit := List.length_eq_length_filter_add (l := session.sources) fun s => s.url ∉ urls
  -- The two selections are of the same documents, each of them once.
  have hperm : (session.urls.filter fun url => url ∈ urls).Perm
      (urls.dedup.filter fun url => url ∈ session.urls) := by
    refine (List.perm_ext_iff_of_nodup (h.urls_nodup.filter _)
      ((List.nodup_dedup urls).filter _)).mpr fun url => ?_
    simp only [List.mem_filter, List.mem_dedup, decide_eq_true_eq, and_comm]
  have hlisted : (session.sources.filter fun s => s.url ∈ urls).length
      = (urls.dedup.filter fun url => url ∈ session.urls).length := by
    rw [← hperm.length_eq, Session.urls, List.filter_map, List.length_map]
    rfl
  rw [size, size, sources_eraseAll] at hsize
  simp only [decide_not, Bool.not_not] at hsize hsplit
  omega

/-! ## Runs -/

/-- What is done to a session. -/
inductive Operation where
  /-- A source is added. -/
  | add (source : Source)
  /-- The sources of documents are removed. -/
  | remove (urls : List Url)

namespace Operation

/-- The session after an operation. -/
def onSession (session : Session) : Operation → Session
  | .add source => (session.insert source).1
  | .remove urls => (session.eraseAll urls).1

/-- The operation adds a source for a document, or removes the document. -/
def IsAbout (url : Url) : Operation → Prop
  | .add source => source.url = url
  | .remove urls => url ∈ urls

theorem ordered_onSession {session : Session} (h : session.Ordered) (operation : Operation) :
    (operation.onSession session).Ordered := by
  cases operation with
  | add source => exact orderedByUrl_insertSource source h
  | remove urls => exact h.eraseAll urls

/-- **One operation.** Afterwards a document has the source that was added for it, or the one that
it had before if the operation is about others. -/
theorem get?_onSession (session : Session) (operation : Operation) {url : Url} {source : Source} :
    (operation.onSession session).get? url = some source
      ↔ (operation = .add source ∧ source.url = url)
        ∨ (¬operation.IsAbout url ∧ session.get? url = some source) := by
  cases operation with
  | add added =>
    rw [onSession, get?_insert, IsAbout, add.injEq]
    split_ifs with hurl
    · rw [Option.some.injEq]
      constructor
      · rintro rfl
        exact Or.inl ⟨rfl, hurl⟩
      · rintro (⟨rfl, -⟩ | ⟨hnot, -⟩)
        · rfl
        · exact absurd hurl hnot
    · constructor
      · exact fun hget => Or.inr ⟨hurl, hget⟩
      · rintro (⟨rfl, hsame⟩ | ⟨-, hget⟩)
        · exact absurd hsame hurl
        · exact hget
  | remove urls =>
    rw [onSession, get?_eraseAll, IsAbout]
    split_ifs with hmem
    · simp [hmem]
    · simp [hmem]

end Operation

/-- The session that operations make of an empty one, one after the other. -/
def after (config : Configuration) (operations : List Operation) : Session :=
  operations.foldl Operation.onSession (empty config)

theorem after_append_singleton (config : Configuration) (operations : List Operation)
    (operation : Operation) :
    after config (operations ++ [operation]) = operation.onSession (after config operations) := by
  rw [after, List.foldl_append]
  rfl

theorem ordered_after (config : Configuration) (operations : List Operation) :
    (after config operations).Ordered := by
  induction operations using List.reverseRecOn with
  | nil => exact ordered_empty config
  | append_singleton operations operation ih =>
    rw [after_append_singleton]
    exact operation.ordered_onSession ih

/-- A document has the source of the last operation about it, if that is an addition. -/
theorem get?_after_iff (config : Configuration) (operations : List Operation) (url : Url)
    (source : Source) :
    (after config operations).get? url = some source
      ↔ Since (fun operation => operation = .add source ∧ source.url = url)
          (fun operation => ¬operation.IsAbout url) operations := by
  induction operations using List.reverseRecOn with
  | nil => exact iff_of_false (fun h => nomatch h) not_since_nil
  | append_singleton operations operation ih =>
    rw [after_append_singleton, Operation.get?_onSession, ih, since_append_singleton]

/-- **A session is a finite map.** After any additions and removals:
- the URLs of the sources are in strict order by their bytes, so no document has two sources, and
  every source is found under its own URL;
- a document has the source that was added last for it since it was last removed;
- an addition gives back what there was for its document, puts the new source in its place and
  leaves all others;
- a removal takes away the sources of the listed documents and nothing else, and counts each
  document once that is listed, however often, and was there. -/
theorem after_finiteMap (config : Configuration) (operations : List Operation) :
    ((after config operations).urls.Pairwise fun url url' =>
        Bytes.ofString url.text < Bytes.ofString url'.text)
    ∧ (after config operations).urls.Nodup
    ∧ (after config operations).urls = (after config operations).sources.map Source.url
    ∧ (∀ source, source ∈ (after config operations).sources
        ↔ (after config operations).get? source.url = some source)
    ∧ (∀ url source, (after config operations).get? url = some source
        ↔ Since (fun operation => operation = .add source ∧ source.url = url)
            (fun operation => ¬operation.IsAbout url) operations)
    ∧ (∀ source,
        ((after config operations).insert source).2.toList
          = (after config operations).sources.filter (fun s => s.url = source.url)
        ∧ ((after config operations).insert source).1.sources.Perm
          (source :: (after config operations).sources.filter fun s => s.url ≠ source.url))
    ∧ ∀ urls,
        ((after config operations).eraseAll urls).1.sources
          = (after config operations).sources.filter (fun s => s.url ∉ urls)
        ∧ ((after config operations).eraseAll urls).2
          = (urls.dedup.filter fun url => url ∈ (after config operations).urls).length
        ∧ ((after config operations).eraseAll urls).1.size
            + ((after config operations).eraseAll urls).2
          = (after config operations).size := by
  have hordered := ordered_after config operations
  refine ⟨?_, hordered.urls_nodup, rfl, fun source => ?_, get?_after_iff config operations,
    fun source => ⟨hordered.toList_insert source, insertSource_perm source hordered⟩,
    fun urls => ⟨sources_eraseAll _ urls, hordered.count_eraseAll_dedup urls,
      hordered.size_eraseAll urls⟩⟩
  · exact List.pairwise_map.mpr (hordered.imp fun hlt => Bytes.ofString_lt_ofString hlt)
  · rw [hordered.get?_eq_some_iff]
    exact (and_iff_left rfl).symm

/-- A document that is listed twice is counted once, and one without a source is not. -/
example :
    let config : Configuration := .ofClasspath .empty
    let source : String → String → Source := fun name content =>
      .ofBuffer ⟨name⟩ (.ofString name) content ⟨config⟩
    let session := after config [.add (source "b:/" "1"), .add (source "a:/" "2"),
      .add (source "b:/" "3")]
    session.sources = [source "a:/" "2", source "b:/" "3"]
      ∧ (session.eraseAll [⟨"b:/"⟩, ⟨"c:/"⟩, ⟨"b:/"⟩]).2 = 1 := by
  decide +kernel

end Session

end WorkspaceSession
