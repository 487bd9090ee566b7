/-
What happens between two reconciliations.

An editor opens, edits and closes documents and reports changed files, a client changes settings,
and somebody discards the session. Runs are made of these events and of reconciliations, and all
that an argument about runs needs to know of an event is said here once: it leaves alone every
document that it does not report as changed (`Event.get?_of_not_mem_changed`), and it leaves the
workspace alone, settings and all, unless it is one that a session must not outlive, and then the
session is discarded whole (`Event.onWorkspace_cases`).
-/
import WorkspaceSession.Proofs.BufferMap
import WorkspaceSession.Workspace

set_option autoImplicit false

namespace WorkspaceSession

/-! ## Histories -/

/-- An element of a list with something behind it is that, or stands before it. -/
theorem eq_or_of_concat_eq {α : Type*} {l front back : List α} {a b : α}
    (h : l ++ [a] = front ++ b :: back) :
    (l = front ∧ a = b ∧ back = []) ∨ ∃ back', back = back' ++ [a] ∧ l = front ++ b :: back' := by
  rcases List.eq_nil_or_concat back with rfl | ⟨back', c, rfl⟩
  · obtain ⟨hl, ha⟩ := List.append_inj' h rfl
    exact Or.inl ⟨hl, (List.cons.inj ha).1, rfl⟩
  · rw [List.concat_eq_append, ← List.cons_append, ← List.append_assoc] at h
    obtain ⟨hl, ha⟩ := List.append_inj' h rfl
    rw [(List.cons.inj ha).1]
    exact Or.inr ⟨back', List.concat_eq_append, hl⟩

/-! ## Events -/

/-- What can happen to a workspace and the buffers of its editor between two reconciliations. -/
inductive Event where
  /-- The editor opens a document. -/
  | openDocument (url : Url) (text : String) (version : Int)
  /-- The editor sends edits of a document. -/
  | editDocument (url : Url) (version : Int) (edits : List Edit)
  /-- The editor closes a document. -/
  | closeDocument (url : Url)
  /-- A file is reported as changed. -/
  | noteChanged (url : Url)
  /-- The settings are replaced. -/
  | withSettings (settings : Settings)
  /-- The classpath entries are replaced. -/
  | withClasspath (entries : List String)
  /-- The library directory is replaced. -/
  | withLibraryDirectory (directory? : Option Path)
  /-- A client sends settings; a payload that is refused changes nothing. -/
  | withPayload (payload : Json)
  /-- The session is discarded. -/
  | discard

/-! ## Settings -/

namespace Settings

theorem same_self (settings : Settings) : settings.same settings = true := by
  have hdirectory : sameDirectory settings.libraryDirectory? settings.libraryDirectory? = true := by
    cases settings.libraryDirectory? with
    | none => rfl
    | some directory => exact decide_eq_true rfl
  rw [same, hdirectory, Bool.and_true]
  exact decide_eq_true rfl

/-- A payload is said to change the classpath only if it does. -/
theorem same_eq_false_of_apply {settings after : Settings} {payload : Json}
    (h : settings.apply payload = .ok (after, true)) : after.same settings = false := by
  rw [apply] at h
  cases hread : readPayload payload with
  | error e =>
    rw [hread] at h
    exact nomatch h
  | ok classpath? =>
    rw [hread] at h
    cases classpath? with
    | none => exact nomatch h
    | some classpath =>
      have h := Except.ok.inj h
      dsimp only at h
      split_ifs at h with hsame
      · exact nomatch h
      · obtain ⟨rfl, -⟩ := Prod.mk.inj h
        rw [same, decide_eq_false hsame, Bool.false_and]

end Settings

namespace Event

/-- The buffers after an event. -/
def onBuffers (event : Event) (buffers : Buffers) : Buffers :=
  match event with
  | .openDocument url text version => buffers.openDocument url text version
  | .editDocument url version edits => buffers.editDocument url version edits
  | .closeDocument url => buffers.closeDocument url
  | .noteChanged url => buffers.noteChanged url
  | _ => buffers

/-- The workspace after an event. -/
def onWorkspace (event : Event) (workspace : Workspace) : Workspace :=
  match event with
  | .withSettings settings => workspace.withSettings settings
  | .withClasspath entries => workspace.withClasspath entries
  | .withLibraryDirectory directory? => workspace.withLibraryDirectory directory?
  | .withPayload payload =>
    match workspace.withPayload payload with
    | .ok (after, _) => after
    | .error _ => workspace
  | .discard => workspace.discard
  | _ => workspace

/-! ## Buffers -/

/-- **No silent change.** A document that is not pending after an event was not pending before, and
has the buffer that it had. -/
theorem get?_of_not_mem_changed {event : Event} {buffers : Buffers} {url : Url}
    (h : url ∉ (event.onBuffers buffers).changed) :
    url ∉ buffers.changed ∧ (event.onBuffers buffers).get? url = buffers.get? url := by
  -- The events that touch a buffer note its document, so it is another one than `url`.
  cases event with
  | openDocument target text version =>
    have hnot := mt Buffers.mem_changed_noteChanged.mpr h
    obtain ⟨hne, hpending⟩ := not_or.mp hnot
    exact ⟨hpending, by rw [onBuffers, Buffers.get?_openDocument, if_neg (Ne.symm hne)]⟩
  | editDocument target version edits =>
    have hnot := mt Buffers.mem_changed_noteChanged.mpr h
    obtain ⟨hne, hpending⟩ := not_or.mp hnot
    exact ⟨hpending, by rw [onBuffers, Buffers.get?_editDocument, if_neg (Ne.symm hne)]⟩
  | closeDocument target =>
    have hnot := mt Buffers.mem_changed_noteChanged.mpr h
    obtain ⟨hne, hpending⟩ := not_or.mp hnot
    exact ⟨hpending, by rw [onBuffers, Buffers.get?_closeDocument, if_neg (Ne.symm hne)]⟩
  | noteChanged target =>
    have hnot := mt Buffers.mem_changed_noteChanged.mpr h
    obtain ⟨-, hpending⟩ := not_or.mp hnot
    exact ⟨hpending, Buffers.get?_noteChanged buffers target url⟩
  | withSettings settings => exact ⟨h, rfl⟩
  | withClasspath entries => exact ⟨h, rfl⟩
  | withLibraryDirectory directory? => exact ⟨h, rfl⟩
  | withPayload payload => exact ⟨h, rfl⟩
  | discard => exact ⟨h, rfl⟩

/-! ## The session -/

/-- A session must not outlive this event: it is discarded outright, or the settings come to be
other ones than just before. -/
def Unsettles (event : Event) (workspace : Workspace) : Prop :=
  event = .discard ∨ (event.onWorkspace workspace).settings.same workspace.settings = false

theorem not_unsettles_of_eq {event : Event} {workspace : Workspace} (hdiscard : event ≠ .discard)
    (h : event.onWorkspace workspace = workspace) : ¬event.Unsettles workspace := by
  rw [Unsettles, h, Settings.same_self]
  exact fun h => h.elim hdiscard Bool.noConfusion

theorem withSettings_cases (workspace : Workspace) (settings : Settings) :
    workspace.withSettings settings = workspace
      ∨ (workspace.withSettings settings).settings.same workspace.settings = false
        ∧ (workspace.withSettings settings).stage = workspace.stage.discard := by
  rw [Workspace.withSettings]
  split_ifs with hsame
  · exact Or.inl rfl
  · exact Or.inr ⟨Bool.eq_false_iff.mpr hsame, rfl⟩

theorem withPayload_cases (workspace : Workspace) (payload : Json) :
    (Event.withPayload payload).onWorkspace workspace = workspace
      ∨ ((Event.withPayload payload).onWorkspace workspace).settings.same workspace.settings = false
        ∧ ((Event.withPayload payload).onWorkspace workspace).stage = workspace.stage.discard := by
  rw [onWorkspace, Workspace.withPayload]
  cases happly : workspace.settings.apply payload with
  | error e => exact Or.inl rfl
  | ok answer =>
    obtain ⟨after, changed⟩ := answer
    cases changed with
    | false => exact Or.inl rfl
    | true => exact Or.inr ⟨Settings.same_eq_false_of_apply happly, rfl⟩

/-- **All or nothing.** An event leaves the workspace as it is, settings, session and all, or it is
one that a session must not outlive and discards the session. -/
theorem onWorkspace_cases (event : Event) (workspace : Workspace) :
    (¬event.Unsettles workspace ∧ event.onWorkspace workspace = workspace)
      ∨ (event.Unsettles workspace
          ∧ (event.onWorkspace workspace).stage = workspace.stage.discard) := by
  -- All events but the last one leave the workspace or give it other settings.
  have hcases : event = .discard ∨ event.onWorkspace workspace = workspace
      ∨ (event.onWorkspace workspace).settings.same workspace.settings = false
        ∧ (event.onWorkspace workspace).stage = workspace.stage.discard := by
    cases event with
    | openDocument url text version => exact Or.inr (Or.inl rfl)
    | editDocument url version edits => exact Or.inr (Or.inl rfl)
    | closeDocument url => exact Or.inr (Or.inl rfl)
    | noteChanged url => exact Or.inr (Or.inl rfl)
    | withSettings settings => exact Or.inr (withSettings_cases workspace settings)
    | withClasspath entries => exact Or.inr (withSettings_cases workspace _)
    | withLibraryDirectory directory? => exact Or.inr (withSettings_cases workspace _)
    | withPayload payload => exact Or.inr (withPayload_cases workspace payload)
    | discard => exact Or.inl rfl
  by_cases hdiscard : event = .discard
  · subst hdiscard
    exact Or.inr ⟨Or.inl rfl, rfl⟩
  · rcases hcases.resolve_left hdiscard with hkept | ⟨hother, hstage⟩
    · exact Or.inl ⟨not_unsettles_of_eq hdiscard hkept, hkept⟩
    · exact Or.inr ⟨Or.inr hother, hstage⟩

/-- What is discarded leaves no session. -/
theorem session?_of_stage_eq_discard {workspace after : Workspace}
    (h : after.stage = workspace.stage.discard) : after.session? = none := by
  rw [Workspace.session?, h]
  cases workspace.stage with
  | fresh => rfl
  | active session => rfl
  | discarded => rfl

/-- **No partial change.** An event leaves the session as it is or leaves none. -/
theorem session?_eq_or_none (event : Event) (workspace : Workspace) :
    (event.onWorkspace workspace).session? = workspace.session?
      ∨ (event.onWorkspace workspace).session? = none := by
  rcases event.onWorkspace_cases workspace with ⟨-, hkept⟩ | ⟨-, hstage⟩
  · rw [hkept]
    exact Or.inl rfl
  · exact Or.inr (session?_of_stage_eq_discard hstage)

end Event

end WorkspaceSession
