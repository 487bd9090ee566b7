/-
Buffers as a finite map with a set of pending changes.

`Buffers.get?` is the map from open documents to their buffers. Opening, editing and closing are its
pointwise updates, and whatever an operation does to the map it does to the one document that it
names. Each operation also makes that document a changed one, which is what reconciling lives on: a
document that is not pending has the buffer that it had when the changes were last taken.
-/
import Mathlib.Tactic.Common
import WorkspaceSession.Buffers

set_option autoImplicit false

namespace WorkspaceSession.Buffers

/-! ## Looking -/

theorem isOpen_iff_get? {buffers : Buffers} {url : Url} :
    buffers.isOpen url = true ↔ ∃ document, buffers.get? url = some document := by
  rw [isOpen, Option.isSome_iff_exists]

/-- The open documents are those that have a buffer. -/
theorem mem_openUrls {buffers : Buffers} {url : Url} :
    url ∈ buffers.openUrls ↔ buffers.isOpen url = true := by
  rw [isOpen, get?, Option.isSome_map, List.find?_isSome, openUrls, List.mem_map]
  constructor
  · rintro ⟨entry, hmem, rfl⟩
    exact ⟨entry, hmem, by simp⟩
  · rintro ⟨entry, hmem, hurl⟩
    exact ⟨entry, hmem, by simpa using hurl⟩

/-- What is said about a document depends on its buffer only. -/
theorem isOpen_congr {buffers buffers' : Buffers} {url : Url}
    (h : buffers.get? url = buffers'.get? url) : buffers.isOpen url = buffers'.isOpen url := by
  rw [isOpen, isOpen, h]

theorem text?_congr {buffers buffers' : Buffers} {url : Url}
    (h : buffers.get? url = buffers'.get? url) : buffers.text? url = buffers'.text? url := by
  rw [text?, text?, h]

/-- A document with a text is open. -/
theorem isOpen_of_text? {buffers : Buffers} {url : Url} {text : String}
    (h : buffers.text? url = some text) : buffers.isOpen url = true := by
  obtain ⟨document, hdocument, -⟩ := Option.map_eq_some_iff.mp h
  exact isOpen_iff_get?.mpr ⟨document, hdocument⟩

/-- An open document has a text. -/
theorem exists_text?_of_isOpen {buffers : Buffers} {url : Url} (h : buffers.isOpen url = true) :
    ∃ text, buffers.text? url = some text := by
  obtain ⟨document, hdocument⟩ := isOpen_iff_get?.mp h
  exact ⟨document.text, by rw [text?, hdocument, Option.map_some]⟩

/-! ## Pending changes -/

@[simp] theorem documents_noteChanged (buffers : Buffers) (url : Url) :
    (buffers.noteChanged url).documents = buffers.documents := by
  rw [noteChanged]
  split_ifs
  · rfl
  · rfl

@[simp] theorem get?_noteChanged (buffers : Buffers) (url url' : Url) :
    (buffers.noteChanged url).get? url' = buffers.get? url' := by
  rw [get?, documents_noteChanged, get?]

/-- Taking the changes leaves the buffers. -/
@[simp] theorem get?_takeChanged (buffers : Buffers) (url : Url) :
    buffers.takeChanged.2.get? url = buffers.get? url := rfl

theorem mem_changed_noteChanged {buffers : Buffers} {url url' : Url} :
    url' ∈ (buffers.noteChanged url).changed ↔ url' = url ∨ url' ∈ buffers.changed := by
  rw [noteChanged]
  split_ifs with h
  · constructor
    · exact Or.inr
    · rintro (rfl | hmem)
      · exact h
      · exact hmem
  · rw [List.mem_append, List.mem_singleton, or_comm]

/-! ## Opening, editing, closing -/

/-- The buffers of other documents survive the removal of one document's. -/
theorem find?_filter_ne (documents : List (Url × Document)) (url url' : Url) :
    (documents.filter fun entry => entry.1 ≠ url).find? (fun entry => entry.1 = url')
      = if url = url' then none else documents.find? (fun entry => entry.1 = url') := by
  rw [List.find?_filter]
  split_ifs with h
  · subst h
    simp
  · congr 1
    funext entry
    by_cases hentry : entry.1 = url'
    · simp [hentry, Ne.symm h]
    · simp [hentry]

/-- A document that is opened has the given buffer, over the one that it had. -/
theorem get?_openDocument (buffers : Buffers) (url : Url) (text : String) (version : Int)
    (url' : Url) :
    (buffers.openDocument url text version).get? url'
      = if url = url' then some ⟨text, version⟩ else buffers.get? url' := by
  rw [openDocument, get?_noteChanged, get?, List.find?_append, find?_filter_ne]
  split_ifs with h
  · simp [h]
  · simp [h, get?]

/-- Edits reach the buffer of the document that they name, if it has one. -/
theorem get?_editDocument (buffers : Buffers) (url : Url) (version : Int) (edits : List Edit)
    (url' : Url) :
    (buffers.editDocument url version edits).get? url'
      = if url = url' then (buffers.get? url').map (·.applyEdits edits version)
        else buffers.get? url' := by
  rw [editDocument, get?_noteChanged, get?, get?, List.find?_map]
  -- Edits leave every entry under its URL, so the search goes on as before.
  have hkey : ((fun entry : Url × Document => decide (entry.1 = url')) ∘ fun entry =>
      if entry.1 = url then (entry.1, entry.2.applyEdits edits version) else entry)
        = fun entry => decide (entry.1 = url') := by
    funext entry
    simp only [Function.comp_apply]
    split_ifs
    · rfl
    · rfl
  rw [hkey]
  cases hfound : buffers.documents.find? (fun entry => entry.1 = url') with
  | none => simp
  | some entry =>
    have hurl : entry.1 = url' := by simpa using List.find?_some hfound
    subst hurl
    by_cases h : url = entry.1
    · simp [h]
    · simp [h, Ne.symm h]

/-- A closed document has no buffer. -/
theorem get?_closeDocument (buffers : Buffers) (url url' : Url) :
    (buffers.closeDocument url).get? url' = if url = url' then none else buffers.get? url' := by
  rw [closeDocument, get?_noteChanged, get?, find?_filter_ne]
  split_ifs
  · rfl
  · rfl

end WorkspaceSession.Buffers
