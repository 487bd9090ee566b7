/-
Buffers and their history.

The open documents and the pending changes are kept apart from each other, and every operation
updates both. What the two hold is a matter of what has happened: a document is pending if something
was said about it since the changes were last taken, and it is open if it was opened and not closed
since, with the text of that opening and of all edits after it. This file proves both for every run
of the operations that an editor, its client and a reader of the changes have.

An operation is first reduced to the entries that it makes in the history (`Operation.entries`): a
notification that names no URL makes none, and one about several files makes one for each of them
that is a URL, whatever the others are. What a run comes to is then a matter of its entries, and
"since" has one step law (`since_append_singleton`), by which each statement follows the history
from the front.
-/
import Mathlib.Data.List.Induction
import Mathlib.Data.List.Nodup
import WorkspaceSession.Proofs.Events

set_option autoImplicit false

namespace WorkspaceSession

/-! ## Since -/

section

variable {α : Type} {P Q : α → Prop} {l : List α} {a : α}

/-- Some element has `P`, and all elements behind it have `Q`. -/
def Since (P Q : α → Prop) (l : List α) : Prop :=
  ∃ before x later, l = before ++ x :: later ∧ P x ∧ ∀ y ∈ later, Q y

theorem not_since_nil : ¬Since P Q [] := by
  rintro ⟨before, x, later, h, -⟩
  simp at h

/-- The last element has `P` itself, or it has `Q` and the rest is as before. -/
theorem since_append_singleton : Since P Q (l ++ [a]) ↔ P a ∨ (Q a ∧ Since P Q l) := by
  constructor
  · rintro ⟨before, x, later, h, hx, hlater⟩
    rcases eq_or_of_concat_eq h with ⟨-, rfl, -⟩ | ⟨later', rfl, hl⟩
    · exact Or.inl hx
    · have ha : Q a := hlater a (List.mem_concat_self ..)
      exact Or.inr ⟨ha, before, x, later', hl, hx, fun y hy => hlater y (List.mem_append_left _ hy)⟩
  · rintro (ha | ⟨ha, before, x, later, rfl, hx, hlater⟩)
    · exact ⟨l, a, [], rfl, ha, by simp⟩
    · refine ⟨before, x, later ++ [a], by simp, hx, fun y hy => ?_⟩
      rcases List.mem_append.mp hy with hy | hy
      · exact hlater y hy
      · rw [List.mem_singleton.mp hy]
        exact ha

end

/-! ## Entries -/

namespace Event

/-- The document that an event is about. -/
def url? : Event → Option Url
  | .openDocument url _ _ => some url
  | .editDocument url _ _ => some url
  | .closeDocument url => some url
  | .noteChanged url => some url
  | _ => none

/-- An event is about one document, or it leaves the buffers alone. -/
theorem onBuffers_cases (event : Event) :
    (∃ url text version, event = .openDocument url text version)
      ∨ (∃ url version edits, event = .editDocument url version edits)
      ∨ (∃ url, event = .closeDocument url)
      ∨ (∃ url, event = .noteChanged url)
      ∨ (event.url? = none ∧ ∀ buffers, event.onBuffers buffers = buffers) := by
  cases event with
  | openDocument url text version => exact Or.inl ⟨url, text, version, rfl⟩
  | editDocument url version edits => exact Or.inr (Or.inl ⟨url, version, edits, rfl⟩)
  | closeDocument url => exact Or.inr (Or.inr (Or.inl ⟨url, rfl⟩))
  | noteChanged url => exact Or.inr (Or.inr (Or.inr (Or.inl ⟨url, rfl⟩)))
  | withSettings settings => simp [onBuffers, url?]
  | withClasspath entries => simp [onBuffers, url?]
  | withLibraryDirectory directory? => simp [onBuffers, url?]
  | withPayload payload => simp [onBuffers, url?]
  | discard => simp [onBuffers, url?]

/-- An event makes the document that it is about a pending one, and no other. -/
theorem mem_changed_onBuffers {event : Event} {buffers : Buffers} {url : Url} :
    url ∈ (event.onBuffers buffers).changed ↔ event.url? = some url ∨ url ∈ buffers.changed := by
  have hnoted : ∀ (buffers : Buffers) (target : Url),
      url ∈ (buffers.noteChanged target).changed
        ↔ some target = some url ∨ url ∈ buffers.changed := by
    intro buffers target
    rw [Buffers.mem_changed_noteChanged, Option.some.injEq, eq_comm]
  obtain ⟨target, text, version, rfl⟩ | ⟨target, version, edits, rfl⟩ | ⟨target, rfl⟩
    | ⟨target, rfl⟩ | ⟨hnone, hkept⟩ := event.onBuffers_cases
  · exact hnoted _ target
  · exact hnoted _ target
  · exact hnoted _ target
  · exact hnoted _ target
  · rw [hkept, hnone]
    simp

end Event

namespace Buffers

/-- What the history of the buffers is made of. -/
inductive Entry where
  /-- Something has happened. -/
  | event (event : Event)
  /-- The changes have been taken. -/
  | taken

namespace Entry

/-- The buffers after an entry. -/
def onBuffers (buffers : Buffers) : Entry → Buffers
  | .event e => e.onBuffers buffers
  | .taken => buffers.takeChanged.2

/-- The entry says something about a document. -/
def Names (url : Url) : Entry → Prop
  | .event e => e.url? = some url
  | .taken => False

/-- The entry opens a document. -/
def Opens (url : Url) (entry : Entry) : Prop :=
  ∃ text version, entry = .event (.openDocument url text version)

/-- The entry closes a document. -/
def Closes (url : Url) (entry : Entry) : Prop :=
  entry = .event (.closeDocument url)

/-- The batch of edits of a document that the entry brings. -/
def batch? (url : Url) : Entry → Option (List Edit × Int)
  | .event (.editDocument target version edits) =>
    if target = url then some (edits, version) else none
  | _ => none

end Entry

/-! ## Operations -/

/-- What can be done to the buffers. -/
inductive Operation where
  /-- Something happens in the editor. -/
  | event (event : Event)
  /-- The client has opened a document. -/
  | didOpen (uri text : String) (version : Int)
  /-- The client has changed a document. -/
  | didChange (uri : String) (version : Int) (edits : List Edit)
  /-- The client has closed a document. -/
  | didClose (uri : String)
  /-- Files that the client watches have changed. -/
  | didChangeWatchedFiles (uris : List String)
  /-- The changes are taken. -/
  | takeChanged

namespace Operation

/-- The buffers after an operation; a failed notification leaves them. -/
def onBuffers (buffers : Buffers) : Operation → Buffers
  | .event e => e.onBuffers buffers
  | .didOpen uri text version => (buffers.didOpen uri text version).toOption.getD buffers
  | .didChange uri version edits => (buffers.didChange uri version edits).toOption.getD buffers
  | .didClose uri => (buffers.didClose uri).toOption.getD buffers
  | .didChangeWatchedFiles uris => (buffers.didChangeWatchedFiles uris).1
  | .takeChanged => buffers.takeChanged.2

/-- What a notification about one document comes to, if the client's name for it is a URL. -/
def entriesFor (uri : String) (event : Url → Event) : List Entry :=
  match documentOf uri with
  | .ok url => [.event (event url)]
  | .error _ => []

/-- What of an operation succeeds, as entries of the history. -/
def entries : Operation → List Entry
  | .event e => [.event e]
  | .didOpen uri text version => entriesFor uri fun url => .openDocument url text version
  | .didChange uri version edits => entriesFor uri fun url => .editDocument url version edits
  | .didClose uri => entriesFor uri .closeDocument
  | .didChangeWatchedFiles uris => uris.flatMap fun uri => entriesFor uri .noteChanged
  | .takeChanged => [.taken]

end Operation

/-- The buffers after entries. -/
def replay (buffers : Buffers) (entries : List Entry) : Buffers :=
  entries.foldl Entry.onBuffers buffers

theorem replay_append_singleton (buffers : Buffers) (entries : List Entry) (entry : Entry) :
    buffers.replay (entries ++ [entry]) = entry.onBuffers (buffers.replay entries) := by
  simp only [replay, List.foldl_append, List.foldl_cons, List.foldl_nil]

/-- A notification about one document does what its entry does, or nothing. -/
theorem getD_map_documentOf (buffers : Buffers) (uri : String) (event : Url → Event) :
    ((documentOf uri).map fun url => (event url).onBuffers buffers).toOption.getD buffers
      = buffers.replay (Operation.entriesFor uri event) := by
  rw [Operation.entriesFor]
  cases documentOf uri with
  | error e => rfl
  | ok url => rfl

/-- A list of watched files is gone through to its end, also behind a name that is no URL. -/
theorem didChangeWatchedFiles_eq_replay (buffers : Buffers) (uris : List String) :
    (buffers.didChangeWatchedFiles uris).1
      = buffers.replay (uris.flatMap fun uri => Operation.entriesFor uri .noteChanged) := by
  induction uris generalizing buffers with
  | nil => rfl
  | cons uri rest ih =>
    rw [didChangeWatchedFiles, List.flatMap_cons, replay, List.foldl_append, Operation.entriesFor]
    cases documentOf uri with
    | error e => exact ih buffers
    | ok url => exact ih (buffers.noteChanged url)

/-- An operation does what its entries do. -/
theorem onBuffers_eq_replay (buffers : Buffers) (operation : Operation) :
    operation.onBuffers buffers = buffers.replay operation.entries := by
  cases operation with
  | event event => rfl
  | didOpen uri text version =>
    exact buffers.getD_map_documentOf uri fun url => .openDocument url text version
  | didChange uri version edits =>
    exact buffers.getD_map_documentOf uri fun url => .editDocument url version edits
  | didClose uri => exact buffers.getD_map_documentOf uri .closeDocument
  | didChangeWatchedFiles uris => exact buffers.didChangeWatchedFiles_eq_replay uris
  | takeChanged => rfl

/-- The buffers after a run of operations. -/
def after (operations : List Operation) : Buffers :=
  operations.foldl Operation.onBuffers .empty

/-- The history of a run. -/
def history (operations : List Operation) : List Entry :=
  operations.flatMap Operation.entries

/-- A run comes to what its history tells. -/
theorem after_eq_replay (operations : List Operation) :
    after operations = Buffers.empty.replay (history operations) := by
  have hfold : ∀ buffers : Buffers,
      operations.foldl Operation.onBuffers buffers = buffers.replay (history operations) := by
    induction operations with
    | nil => exact fun _ => rfl
    | cons operation rest ih =>
      intro buffers
      have hcons : history (operation :: rest) = operation.entries ++ history rest :=
        List.flatMap_cons
      rw [List.foldl_cons, ih, onBuffers_eq_replay, hcons, replay, replay, replay,
        List.foldl_append]
  exact hfold .empty

/-! ## Nothing twice -/

/-- Every open document and every pending one is kept once. -/
structure Listed (buffers : Buffers) : Prop where
  /-- The open documents. -/
  openUrls : buffers.openUrls.Nodup
  /-- The pending ones. -/
  changed : buffers.changed.Nodup

theorem listed_empty : empty.Listed :=
  ⟨List.nodup_nil, List.nodup_nil⟩

/-- Nothing is noted twice. -/
theorem Listed.noteChanged {buffers : Buffers} (h : buffers.Listed) (url : Url) :
    (buffers.noteChanged url).Listed := by
  have hopen : (buffers.noteChanged url).openUrls = buffers.openUrls := by
    rw [Buffers.openUrls, documents_noteChanged, Buffers.openUrls]
  refine ⟨hopen ▸ h.openUrls, ?_⟩
  unfold Buffers.noteChanged
  by_cases hmem : url ∈ buffers.changed
  · rw [if_pos hmem]
    exact h.changed
  · rw [if_neg hmem, ← List.concat_eq_append]
    exact List.Nodup.concat hmem h.changed

theorem Listed.others {buffers : Buffers} (h : buffers.Listed) (url : Url) :
    ((buffers.documents.filter fun entry => entry.1 ≠ url).map Prod.fst).Nodup :=
  List.Nodup.sublist (List.filter_sublist.map Prod.fst) h.openUrls

theorem Listed.openDocument {buffers : Buffers} (h : buffers.Listed) (url : Url) (text : String)
    (version : Int) : (buffers.openDocument url text version).Listed := by
  unfold Buffers.openDocument
  apply Listed.noteChanged
  refine ⟨?_, h.changed⟩
  -- The document stands behind the others, of which it is none.
  have hnot : url ∉ (buffers.documents.filter fun entry => entry.1 ≠ url).map Prod.fst := by
    simp
  rw [Buffers.openUrls, List.map_append, List.map_singleton, ← List.concat_eq_append]
  exact List.Nodup.concat hnot (h.others url)

theorem Listed.editDocument {buffers : Buffers} (h : buffers.Listed) (url : Url) (version : Int)
    (edits : List Edit) : (buffers.editDocument url version edits).Listed := by
  unfold Buffers.editDocument
  apply Listed.noteChanged
  refine ⟨?_, h.changed⟩
  -- Edits leave every buffer under its URL.
  have hkeys : (Prod.fst ∘ fun entry : Url × Document =>
      if entry.1 = url then (entry.1, entry.2.applyEdits edits version) else entry) = Prod.fst := by
    funext entry
    by_cases hentry : entry.1 = url
    · simp [hentry]
    · simp [hentry]
  rw [Buffers.openUrls, List.map_map, hkeys]
  exact h.openUrls

theorem Listed.closeDocument {buffers : Buffers} (h : buffers.Listed) (url : Url) :
    (buffers.closeDocument url).Listed := by
  unfold Buffers.closeDocument
  apply Listed.noteChanged
  exact ⟨h.others url, h.changed⟩

theorem Listed.onBuffers {buffers : Buffers} (h : buffers.Listed) (entry : Entry) :
    (entry.onBuffers buffers).Listed := by
  cases entry with
  | taken => exact ⟨h.openUrls, List.nodup_nil⟩
  | event event =>
    rw [Entry.onBuffers]
    obtain ⟨url, text, version, rfl⟩ | ⟨url, version, edits, rfl⟩ | ⟨url, rfl⟩ | ⟨url, rfl⟩
      | ⟨-, hkept⟩ := event.onBuffers_cases
    · exact h.openDocument url text version
    · exact h.editDocument url version edits
    · exact h.closeDocument url
    · exact h.noteChanged url
    · rw [hkept]
      exact h

theorem Listed.replay {buffers : Buffers} (h : buffers.Listed) (entries : List Entry) :
    (buffers.replay entries).Listed := by
  induction entries generalizing buffers with
  | nil => exact h
  | cons entry rest ih => exact ih (h.onBuffers entry)

/-! ## Pending changes -/

/-- **What is pending**: the documents about which something was said since the changes were last
taken. -/
theorem mem_changed_replay_iff (entries : List Entry) (url : Url) :
    url ∈ (empty.replay entries).changed ↔ Since (Entry.Names url) (· ≠ .taken) entries := by
  induction entries using List.reverseRecOn with
  | nil => exact iff_of_false List.not_mem_nil not_since_nil
  | append_singleton entries entry ih =>
    rw [replay_append_singleton, since_append_singleton, ← ih]
    cases entry with
    | event event =>
      rw [Entry.onBuffers, Event.mem_changed_onBuffers]
      simp [Entry.Names]
    | taken => simp [Entry.onBuffers, takeChanged, Entry.Names]

/-! ## Open documents -/

/-- A document after batches of edits, one after the other. -/
def applyBatches (document : Document) (batches : List (List Edit × Int)) : Document :=
  batches.foldl (fun document batch => document.applyEdits batch.1 batch.2) document

/-- The batches of edits of a document that a history brings, in order. -/
def batches (url : Url) (entries : List Entry) : List (List Edit × Int) :=
  entries.filterMap (Entry.batch? url)

/-- The edits of a document that a history brings, in order, whatever their batches are. -/
def edits (url : Url) (entries : List Entry) : List Edit :=
  (batches url entries).flatMap Prod.fst

/-- The version of the last batch of a document that a history brings, if it brings any. -/
def lastVersion? (url : Url) (entries : List Entry) : Option Int :=
  (batches url entries).getLast?.map Prod.snd

/-- Batches are applied edit by edit, and the last one of them leaves its version. -/
theorem applyBatches_eq (document : Document) (batches : List (List Edit × Int)) :
    (applyBatches document batches).text.toList
        = (batches.flatMap Prod.fst).foldl (fun text edit => edit.applyTo text)
            document.text.toList
      ∧ (applyBatches document batches).version
        = (batches.getLast?.map Prod.snd).getD document.version := by
  induction batches using List.reverseRecOn with
  | nil => exact ⟨rfl, rfl⟩
  | append_singleton batches batch ih =>
    have happlied : applyBatches document (batches ++ [batch])
        = (applyBatches document batches).applyEdits batch.1 batch.2 := by
      simp only [applyBatches, List.foldl_append, List.foldl_cons, List.foldl_nil]
    rw [happlied, Document.applyEdits]
    constructor
    · rw [String.toList_ofList, ih.1, List.flatMap_append, List.flatMap_singleton,
        List.foldl_append]
    · rw [List.getLast?_concat]
      rfl

/-- An entry that neither opens nor closes a document brings it a batch of edits, or nothing. -/
theorem get?_onBuffers {url : Url} {entry : Entry} (hopens : ¬entry.Opens url)
    (hcloses : ¬entry.Closes url) (buffers : Buffers) :
    (entry.onBuffers buffers).get? url
      = (buffers.get? url).map (applyBatches · (entry.batch? url).toList) := by
  -- Whatever is about another document, or about none, brings nothing.
  have hpassed : entry.batch? url = none → (entry.onBuffers buffers).get? url = buffers.get? url →
      (entry.onBuffers buffers).get? url
        = (buffers.get? url).map (applyBatches · (entry.batch? url).toList) := by
    intro hbatch hget
    rw [hbatch, hget]
    exact Option.map_id'.symm
  cases entry with
  | taken => exact hpassed rfl rfl
  | event event =>
    obtain ⟨target, text, version, rfl⟩ | ⟨target, version, edits, rfl⟩ | ⟨target, rfl⟩
      | ⟨target, rfl⟩ | ⟨hnone, hkept⟩ := event.onBuffers_cases
    · have hne : target ≠ url := by
        rintro rfl
        exact hopens ⟨text, version, rfl⟩
      exact hpassed rfl ((get?_openDocument ..).trans (if_neg hne))
    · by_cases htarget : target = url
      · subst htarget
        rw [Entry.batch?, if_pos rfl]
        exact (get?_editDocument ..).trans (if_pos rfl)
      · exact hpassed (if_neg htarget) ((get?_editDocument ..).trans (if_neg htarget))
    · have hne : target ≠ url := by
        rintro rfl
        exact hcloses rfl
      exact hpassed rfl ((get?_closeDocument ..).trans (if_neg hne))
    · exact hpassed rfl (get?_noteChanged ..)
    · refine hpassed ?_ (by rw [Entry.onBuffers, hkept])
      cases event with
      | editDocument target version edits => exact nomatch hnone
      | _ => rfl

theorem get?_onBuffers_of_opens {url : Url} {text : String} {version : Int} (buffers : Buffers) :
    (Entry.onBuffers buffers (.event (.openDocument url text version))).get? url
      = some ⟨text, version⟩ := by
  rw [Entry.onBuffers, Event.onBuffers, get?_openDocument, if_pos rfl]

theorem get?_onBuffers_of_closes {url : Url} {entry : Entry} (hcloses : entry.Closes url)
    (buffers : Buffers) : (entry.onBuffers buffers).get? url = none := by
  rw [hcloses, Entry.onBuffers, Event.onBuffers, get?_closeDocument, if_pos rfl]

/-- **When a document is open**: it was opened, and not closed since. Whether `Q` rules out further
openings too makes no difference. -/
theorem isOpen_replay_iff {url : Url} {Q : Entry → Prop}
    (hcloses : ∀ entry, entry.Closes url → ¬Q entry)
    (hother : ∀ entry, ¬entry.Closes url → ¬entry.Opens url → Q entry) (entries : List Entry) :
    (empty.replay entries).isOpen url = true ↔ Since (Entry.Opens url) Q entries := by
  induction entries using List.reverseRecOn with
  | nil => exact iff_of_false Bool.false_ne_true not_since_nil
  | append_singleton entries entry ih =>
    rw [replay_append_singleton, since_append_singleton, ← ih, isOpen, isOpen]
    by_cases hopened : entry.Opens url
    · obtain ⟨text, version, rfl⟩ := hopened
      rw [get?_onBuffers_of_opens]
      exact iff_of_true rfl (Or.inl ⟨text, version, rfl⟩)
    · by_cases hclosed : entry.Closes url
      · rw [get?_onBuffers_of_closes hclosed]
        refine iff_of_false Bool.false_ne_true (not_or.mpr ⟨hopened, ?_⟩)
        exact fun h => hcloses entry hclosed h.1
      · rw [get?_onBuffers hopened hclosed, Option.isSome_map]
        simp only [hopened, hother entry hclosed hopened, false_or, true_and]

/-- While a document is neither opened nor closed, its buffer takes in the batches. -/
theorem get?_replay {url : Url} {entries : List Entry}
    (h : ∀ entry ∈ entries, ¬entry.Opens url ∧ ¬entry.Closes url) {buffers : Buffers}
    {document : Document} (hdocument : buffers.get? url = some document) :
    (buffers.replay entries).get? url = some (applyBatches document (batches url entries)) := by
  induction entries generalizing buffers document with
  | nil => exact hdocument
  | cons entry rest ih =>
    obtain ⟨hopens, hcloses⟩ := h entry List.mem_cons_self
    have hstep := get?_onBuffers hopens hcloses buffers
    rw [hdocument, Option.map_some] at hstep
    have hrest := ih (fun entry hentry => h entry (List.mem_cons_of_mem _ hentry)) hstep
    have hbatches : batches url (entry :: rest)
        = (entry.batch? url).toList ++ batches url rest := by
      rw [batches, batches, List.filterMap_cons]
      cases entry.batch? url with
      | none => rfl
      | some batch => rfl
    rw [replay, List.foldl_cons, hbatches, applyBatches, List.foldl_append]
    exact hrest

/-- **What an open document holds**: the text of its last opening after all edits since, and the
version of the last batch. -/
theorem get?_replay_eq_some_iff (entries : List Entry) (url : Url) (document : Document) :
    (empty.replay entries).get? url = some document
      ↔ ∃ before text version later,
          entries = before ++ .event (.openDocument url text version) :: later
            ∧ (∀ entry ∈ later, ¬entry.Opens url ∧ ¬entry.Closes url)
            ∧ document.text.toList
              = (edits url later).foldl (fun text edit => edit.applyTo text) text.toList
            ∧ document.version = (lastVersion? url later).getD version := by
  have hlast : ∀ before text version later,
      entries = before ++ .event (.openDocument url text version) :: later →
      (∀ entry ∈ later, ¬entry.Opens url ∧ ¬entry.Closes url) →
      (empty.replay entries).get? url
        = some (applyBatches ⟨text, version⟩ (batches url later)) := by
    intro before text version later hentries hlater
    rw [hentries, replay, List.foldl_append, List.foldl_cons]
    exact get?_replay hlater (get?_onBuffers_of_opens _)
  constructor
  · intro hdocument
    have hopen : (empty.replay entries).isOpen url = true :=
      isOpen_iff_get?.mpr ⟨document, hdocument⟩
    -- Of all openings that no closing follows, the last one is the one that counts.
    have hsince : Since (Entry.Opens url) (fun entry => ¬entry.Opens url ∧ ¬entry.Closes url)
        entries :=
      (isOpen_replay_iff (fun entry hclosed h => h.2 hclosed)
        (fun entry hclosed hopened => ⟨hopened, hclosed⟩) entries).mp hopen
    obtain ⟨before, _, later, hentries, ⟨text, version, rfl⟩, hlater⟩ := hsince
    refine ⟨before, text, version, later, hentries, hlater, ?_⟩
    have happlied : document = applyBatches ⟨text, version⟩ (batches url later) :=
      Option.some.inj (hdocument.symm.trans (hlast before text version later hentries hlater))
    rw [happlied]
    exact applyBatches_eq ⟨text, version⟩ (batches url later)
  · rintro ⟨before, text, version, later, hentries, hlater, htext, hversion⟩
    obtain ⟨htext', hversion'⟩ := applyBatches_eq ⟨text, version⟩ (batches url later)
    have hsameText : (applyBatches ⟨text, version⟩ (batches url later)).text = document.text :=
      String.toList_injective (htext'.trans htext.symm)
    have hsameVersion : (applyBatches ⟨text, version⟩ (batches url later)).version
        = document.version := hversion'.trans hversion.symm
    rw [hlast before text version later hentries hlater, Option.some.injEq]
    calc applyBatches ⟨text, version⟩ (batches url later)
        = ⟨(applyBatches ⟨text, version⟩ (batches url later)).text,
            (applyBatches ⟨text, version⟩ (batches url later)).version⟩ := rfl
      _ = document := by rw [hsameText, hsameVersion]

/-! ## Runs -/

/-- **Nothing lost, nothing twice.** After any run of operations:
- what is taken are the pending changes, each once: the documents that some operation has named
  since the changes were last taken, open or not;
- the open documents, each once, are those that have a text: the ones that were opened and not
  closed since, whatever was taken in between;
- such a document has the text of its last opening after all edits since, one after the other, and
  the version of the last batch of them, or of the opening if there was none; so what was sent while
  it was closed has no effect. -/
theorem after_follows_history (operations : List Operation) :
    ((after operations).takeChanged.1 = (after operations).changed
      ∧ (after operations).takeChanged.1.Nodup
      ∧ ∀ url, url ∈ (after operations).takeChanged.1
          ↔ Since (Entry.Names url) (· ≠ .taken) (history operations))
    ∧ ((after operations).openUrls.Nodup
      ∧ (∀ url, url ∈ (after operations).openUrls ↔ (after operations).isOpen url = true)
      ∧ (∀ url, ((after operations).text? url).isSome = (after operations).isOpen url)
      ∧ ∀ url, (after operations).isOpen url = true
          ↔ Since (Entry.Opens url) (fun entry => ¬entry.Closes url) (history operations))
    ∧ ∀ url document, (after operations).get? url = some document
        ↔ ∃ before text version later,
            history operations = before ++ .event (.openDocument url text version) :: later
              ∧ (∀ entry ∈ later, ¬entry.Opens url ∧ ¬entry.Closes url)
              ∧ document.text.toList
                = (edits url later).foldl (fun text edit => edit.applyTo text) text.toList
              ∧ document.version = (lastVersion? url later).getD version := by
  rw [after_eq_replay]
  have hlisted : (empty.replay (history operations)).Listed := listed_empty.replay _
  refine ⟨⟨rfl, hlisted.changed, mem_changed_replay_iff _⟩,
    ⟨hlisted.openUrls, fun url => mem_openUrls, fun url => Option.isSome_map, fun url => ?_⟩,
    get?_replay_eq_some_iff _⟩
  exact isOpen_replay_iff (fun entry hclosed h => h hclosed) (fun entry hclosed _ => hclosed) _

/-- What is sent while the document is closed is lost, what is taken or sent to others in between is
passed over, a batch is applied edit by edit, and one without edits still brings its version. -/
theorem after_follows_history_edited :
    let url : Url := ⟨"file:///A.groovy"⟩
    let other : Url := ⟨"file:///B.groovy"⟩
    let closed : List Operation :=
      [.didOpen url.text "old" 1, .didClose url.text, .didChange url.text 8 [⟨none, "lost"⟩]]
    let opening : Operation := .didOpen url.text "ab\ncd" 1
    let edited : List Operation := [.takeChanged, .didChange other.text 9 [⟨none, "other"⟩],
      .didChange url.text 2 [⟨some ⟨⟨1, 1⟩, ⟨1, 2⟩⟩, "xy"⟩, ⟨some ⟨⟨0, 2⟩, ⟨1, 1⟩⟩, ""⟩],
      .event (.noteChanged url), .didChange url.text 4 []]
    (after (closed ++ opening :: edited)).get? url = some ⟨"abxy", 4⟩
      ∧ (after (closed ++ opening :: edited)).isOpen other = false
      ∧ (after (closed ++ opening :: edited)).takeChanged.1 = [other, url] := by
  intro url other closed opening edited
  have hurl : ∀ event, Operation.entriesFor url.text event = [.event (event url)] := by
    intro event
    have hname : documentOf url.text = .ok url := by decide +kernel
    rw [Operation.entriesFor, hname]
  have hother : ∀ event, Operation.entriesFor other.text event = [.event (event other)] := by
    intro event
    have hname : documentOf other.text = .ok other := by decide +kernel
    rw [Operation.entriesFor, hname]
  have hopening : history (closed ++ opening :: edited)
      = history closed ++ .event (.openDocument url "ab\ncd" 1) :: history edited := by
    have hentries : opening.entries = [.event (.openDocument url "ab\ncd" 1)] := hurl _
    have hcons : history (opening :: edited) = opening.entries ++ history edited := rfl
    have happend : history (closed ++ opening :: edited)
        = history closed ++ history (opening :: edited) := List.flatMap_append
    rw [happend, hcons, hentries]
    rfl
  have hedited : ∀ entry ∈ history edited, ¬entry.Opens url ∧ ¬entry.Closes url := by
    simp [history, edited, Operation.entries, hurl, hother, Entry.Opens, Entry.Closes]
  obtain ⟨-, -, hheld⟩ := after_follows_history (closed ++ opening :: edited)
  refine ⟨(hheld url ⟨"abxy", 4⟩).mpr ⟨_, _, _, _, hopening, hedited, ?_, ?_⟩, ?_, ?_⟩
  all_goals decide +kernel

/-- Edits of a closed document make it pending and nothing else, also by the client's notification;
the name behind it is no URL and passes. -/
example :
    let url : Url := ⟨"file:///A.groovy"⟩
    let buffers := after [.event (.openDocument url "a" 1), .event (.closeDocument url),
      .takeChanged, .didChange "file:///A.groovy" 2 [⟨none, "b"⟩], .didClose "A.groovy"]
    buffers.changed = [url] ∧ buffers.isOpen url = false := by
  decide +kernel

end Buffers

end WorkspaceSession
