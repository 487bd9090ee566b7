/-
Notifications of a client.

A client names documents by text, and a text may be no URL at all. Notifications about one document
are one case: the name is read first, and only a URL gets as far as the buffers
(`map_documentOf_of_ok`, `map_documentOf_of_error`).

A list of watched files is a different matter, because it is gone through to its end whatever is
met on the way, and only then fails. What it leaves in the buffers and what it answers are
therefore told apart: the buffers take in each name that is a URL, wherever it stands
(`mem_changed_didChangeWatchedFiles`), and the answer is a search that no buffer has a part in
(`didChangeWatchedFiles_snd`), so that it ends at the first name that is none.
-/
import WorkspaceSession.Proofs.BufferHistories

set_option autoImplicit false

namespace WorkspaceSession.Buffers

/-! ## Names -/

section

variable {α : Type} {uri : String}

theorem documentOf_of_ok {url : Url} (h : Url.parse uri = .ok url) : documentOf uri = .ok url := by
  rw [documentOf, h]
  rfl

theorem documentOf_of_error {cause : Url.ParseError} (h : Url.parse uri = .error cause) :
    documentOf uri = .error ⟨uri, cause⟩ := by
  rw [documentOf, h]
  rfl

/-- A URL is passed on. -/
theorem map_documentOf_of_ok {url : Url} (h : Url.parse uri = .ok url) (f : Url → α) :
    (documentOf uri).map f = .ok (f url) := by
  rw [documentOf_of_ok h]
  rfl

/-- Anything else is the failure. -/
theorem map_documentOf_of_error {cause : Url.ParseError} (h : Url.parse uri = .error cause)
    (f : Url → α) : (documentOf uri).map f = .error ⟨uri, cause⟩ := by
  rw [documentOf_of_error h]
  rfl

end

/-! ## One document -/

/-- A notification about one document that fails leaves the buffers. -/
theorem onBuffers_of_error (buffers : Buffers) {uri : String} {cause : Url.ParseError}
    (h : Url.parse uri = .error cause) (text : String) (version : Int) (edits : List Edit) :
    (Operation.didOpen uri text version).onBuffers buffers = buffers
      ∧ (Operation.didChange uri version edits).onBuffers buffers = buffers
      ∧ (Operation.didClose uri).onBuffers buffers = buffers := by
  have hentries : ∀ event, Operation.entriesFor uri event = [] := by
    intro event
    rw [Operation.entriesFor, documentOf_of_error h]
  refine ⟨?_, ?_, ?_⟩
  · rw [onBuffers_eq_replay, Operation.entries, hentries]
    rfl
  · rw [onBuffers_eq_replay, Operation.entries, hentries]
    rfl
  · rw [onBuffers_eq_replay, Operation.entries, hentries]
    rfl

/-! ## Watched files -/

/-- The failure that a name is, if it is one. -/
def failure? (uri : String) : Option InvalidUri :=
  match Url.parse uri with
  | .ok _ => none
  | .error cause => some ⟨uri, cause⟩

theorem failure?_eq_none_iff (uri : String) :
    failure? uri = none ↔ ∃ url, Url.parse uri = .ok url := by
  rw [failure?]
  cases Url.parse uri with
  | ok url => simp
  | error cause => simp

theorem failure?_eq_some_iff (uri : String) (e : InvalidUri) :
    failure? uri = some e ↔ ∃ cause, Url.parse uri = .error cause ∧ e = ⟨uri, cause⟩ := by
  rw [failure?]
  cases Url.parse uri with
  | ok url => simp
  | error cause => simp [eq_comm]

section

variable (buffers : Buffers)

/-- One step through a list of watched files. -/
theorem didChangeWatchedFiles_cons_of_ok {uri : String} {url : Url} (h : Url.parse uri = .ok url)
    (rest : List String) : buffers.didChangeWatchedFiles (uri :: rest)
      = (buffers.noteChanged url).didChangeWatchedFiles rest := by
  rw [didChangeWatchedFiles, documentOf_of_ok h]

/-- A step past a name that is no URL. -/
theorem didChangeWatchedFiles_cons_of_error {uri : String} {cause : Url.ParseError}
    (h : Url.parse uri = .error cause) (rest : List String) :
    buffers.didChangeWatchedFiles (uri :: rest)
      = ((buffers.didChangeWatchedFiles rest).1, some ⟨uri, cause⟩) := by
  rw [didChangeWatchedFiles, documentOf_of_error h]

/-- What watched files do to the buffers is to make documents changed ones. -/
theorem documents_didChangeWatchedFiles (uris : List String) :
    (buffers.didChangeWatchedFiles uris).1.documents = buffers.documents := by
  induction uris generalizing buffers with
  | nil => rfl
  | cons uri rest ih =>
    cases hparse : Url.parse uri with
    | ok url => rw [didChangeWatchedFiles_cons_of_ok buffers hparse, ih, documents_noteChanged]
    | error cause => rw [didChangeWatchedFiles_cons_of_error buffers hparse, ih]

/-- **Nothing lost behind a failure.** All names that are URLs count, wherever they stand. -/
theorem mem_changed_didChangeWatchedFiles (uris : List String) (url : Url) :
    url ∈ (buffers.didChangeWatchedFiles uris).1.changed
      ↔ url ∈ buffers.changed ∨ ∃ uri ∈ uris, Url.parse uri = .ok url := by
  induction uris generalizing buffers with
  | nil => simp [didChangeWatchedFiles]
  | cons uri rest ih =>
    rw [List.exists_mem_cons_iff]
    cases hparse : Url.parse uri with
    | ok target =>
      rw [didChangeWatchedFiles_cons_of_ok buffers hparse, ih, mem_changed_noteChanged,
        Except.ok.injEq, eq_comm (a := target), or_assoc, or_left_comm]
    | error cause =>
      rw [didChangeWatchedFiles_cons_of_error buffers hparse, ih]
      simp

/-- The answer to watched files is the first failure among the names. -/
theorem didChangeWatchedFiles_snd (uris : List String) :
    (buffers.didChangeWatchedFiles uris).2 = uris.findSome? failure? := by
  induction uris generalizing buffers with
  | nil => rfl
  | cons uri rest ih =>
    rw [List.findSome?_cons, failure?]
    cases hparse : Url.parse uri with
    | ok url => rw [didChangeWatchedFiles_cons_of_ok buffers hparse, ih]
    | error cause => rw [didChangeWatchedFiles_cons_of_error buffers hparse]

end

/-! ## All or nothing, and all the same -/

/-- **How notifications fail.** For any buffers:
- a notification about one document whose name is no URL fails with that name, and leaves open
  documents and pending changes as they are;
- with a URL it opens, edits or closes the document of that URL;
- watched files leave the open documents, make changed exactly the documents of those names that
  are URLs, in front of a failure and behind it, and list none of them twice; they fail with the
  first name that is no URL, if there is one. -/
theorem notifications_atomic (buffers : Buffers) :
    (∀ uri cause, Url.parse uri = .error cause → ∀ text version edits,
      (buffers.didOpen uri text version = .error ⟨uri, cause⟩
        ∧ buffers.didChange uri version edits = .error ⟨uri, cause⟩
        ∧ buffers.didClose uri = .error ⟨uri, cause⟩)
      ∧ (Operation.didOpen uri text version).onBuffers buffers = buffers
      ∧ (Operation.didChange uri version edits).onBuffers buffers = buffers
      ∧ (Operation.didClose uri).onBuffers buffers = buffers)
    ∧ (∀ uri url, Url.parse uri = .ok url → ∀ text version edits,
      buffers.didOpen uri text version = .ok (buffers.openDocument url text version)
        ∧ buffers.didChange uri version edits = .ok (buffers.editDocument url version edits)
        ∧ buffers.didClose uri = .ok (buffers.closeDocument url))
    ∧ ∀ uris,
      (buffers.didChangeWatchedFiles uris).1.documents = buffers.documents
      ∧ (∀ url, url ∈ (buffers.didChangeWatchedFiles uris).1.changed
          ↔ url ∈ buffers.changed ∨ ∃ uri ∈ uris, Url.parse uri = .ok url)
      ∧ (buffers.Listed → (buffers.didChangeWatchedFiles uris).1.Listed)
      ∧ ((buffers.didChangeWatchedFiles uris).2 = none
          ↔ ∀ uri ∈ uris, ∃ url, Url.parse uri = .ok url)
      ∧ ∀ e, (buffers.didChangeWatchedFiles uris).2 = some e
          ↔ ∃ before uri later cause, uris = before ++ uri :: later
            ∧ (∀ earlier ∈ before, ∃ url, Url.parse earlier = .ok url)
            ∧ Url.parse uri = .error cause ∧ e = ⟨uri, cause⟩ := by
  refine ⟨fun uri cause h text version edits => ⟨⟨map_documentOf_of_error h _,
    map_documentOf_of_error h _, map_documentOf_of_error h _⟩,
    onBuffers_of_error buffers h text version edits⟩,
    fun uri url h text version edits => ⟨map_documentOf_of_ok h _, map_documentOf_of_ok h _,
      map_documentOf_of_ok h _⟩,
    fun uris => ⟨documents_didChangeWatchedFiles buffers uris,
      mem_changed_didChangeWatchedFiles buffers uris, fun hlisted => ?_, ?_, fun e => ?_⟩⟩
  · rw [didChangeWatchedFiles_eq_replay]
    exact hlisted.replay _
  · rw [didChangeWatchedFiles_snd, List.findSome?_eq_none_iff]
    exact forall₂_congr fun uri _ => failure?_eq_none_iff uri
  · rw [didChangeWatchedFiles_snd, List.findSome?_eq_some_iff]
    constructor
    · rintro ⟨before, uri, later, huris, hfailure, hbefore⟩
      obtain ⟨cause, hcause, he⟩ := (failure?_eq_some_iff uri e).mp hfailure
      exact ⟨before, uri, later, cause, huris,
        fun earlier hmem => (failure?_eq_none_iff earlier).mp (hbefore earlier hmem), hcause, he⟩
    · rintro ⟨before, uri, later, cause, huris, hbefore, hcause, he⟩
      exact ⟨before, uri, later, huris, (failure?_eq_some_iff uri e).mpr ⟨cause, hcause, he⟩,
        fun earlier hmem => (failure?_eq_none_iff earlier).mpr (hbefore earlier hmem)⟩

/-- A list with failures in front, in between and behind, and one document twice, on buffers with an
open document: both documents count, and the first name that is no URL is the failure. -/
theorem notifications_atomic_mixed :
    let a : Url := ⟨"file:///a"⟩
    let b : Url := ⟨"file:///b"⟩
    let buffers := empty.openDocument a "class A" 1
    let uris := ["nope", "file:///a", "http://", "file:///./b", "file:///b", "nope"]
    buffers.didClose "nope" = .error ⟨"nope", .noScheme⟩
      ∧ buffers.didClose "file:///./a" = .ok (buffers.closeDocument a)
      ∧ (buffers.didChangeWatchedFiles uris).1.documents = [(a, ⟨"class A", 1⟩)]
      ∧ (∀ url, url ∈ (buffers.didChangeWatchedFiles uris).1.changed ↔ url = a ∨ url = b)
      ∧ (buffers.didChangeWatchedFiles uris).2 = some ⟨"nope", .noScheme⟩ := by
  intro a b buffers uris
  obtain ⟨hfailed, htaken, hwatched⟩ := notifications_atomic buffers
  obtain ⟨hdocuments, hchanged, -, -, hfailure⟩ := hwatched uris
  refine ⟨(hfailed "nope" _ (by decide +kernel) "" 0 []).1.2.2,
    (htaken "file:///./a" a (by decide +kernel) "" 0 []).2.2, hdocuments, fun url => ?_,
    (hfailure _).mpr ⟨[], "nope", _, .noScheme, rfl, by simp, by decide +kernel, rfl⟩⟩
  have hparse : uris.map Url.parse
      = [.error .noScheme, .ok a, .error .emptyHost, .ok b, .ok b, .error .noScheme] := by
    decide +kernel
  rw [hchanged url, ← List.mem_map, hparse]
  simp [buffers, openDocument, noteChanged, empty]

end WorkspaceSession.Buffers
