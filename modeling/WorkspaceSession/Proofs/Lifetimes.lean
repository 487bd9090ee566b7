/-
How sessions begin and end.

A session is bound to the classpath that it was made with, so a workspace must not keep it beyond
the settings that gave this classpath, and must not throw it away without need either. Six
operations touch the settings or the session, each with its own idea of when nothing is to be done.
What they have in common is `Event.onWorkspace_cases`: an event either leaves the whole workspace as
it is, or it is one that a session must not outlive, and then there is no session afterwards.

Runs are lists of steps here, because what is said of them is about when things happened: a session
is the work of the last full build (`LastFullBuild`), and a reconciliation is a full build if one of
the events since the last reconciliation asked for it (`Unsettled`). Disk and editor may be others
at every reconciliation, in any state, and answer as they like.
-/
import Mathlib.Data.List.Induction
import WorkspaceSession.FileSystem.Edit
import WorkspaceSession.Proofs.Events
import WorkspaceSession.Proofs.Findings

set_option autoImplicit false

namespace WorkspaceSession

/-! ## Steps -/

/-- One step of a run. -/
inductive Step : Type 1 where
  /-- Something happens. -/
  | event (event : Event)
  /-- A reconciliation, with its own disk and editor in any state. -/
  | reconcile {σ : Type} (disk : Disk (StateM σ)) (editor : Editor (StateM σ)) (root? : Option Path)
      (s : σ)

namespace Step

/-- Whether a step is a reconciliation. -/
def isReconcile : Step → Bool
  | .event _ => false
  | .reconcile .. => true

/-- The workspace after a step. -/
def onWorkspace (workspace : Workspace) : Step → Workspace
  | .event e => e.onWorkspace workspace
  | .reconcile disk editor root? s => ((workspace.reconcile disk editor root?).run s).1.1

/-- Whether a step is a reconciliation that reports a full build. -/
def fullBuild (workspace : Workspace) : Step → Bool
  | .event _ => false
  | .reconcile disk editor root? s => ((workspace.reconcile disk editor root?).run s).1.2.fullBuild

/-- What the settings resolve to on the disk of a reconciliation, at the time at which a full build
resolves its own. -/
def resolved? (settings : Settings) : Step → Option Classpath
  | .event _ => none
  | .reconcile disk editor _ s => some ((Workspace.resolved disk editor settings).run s).1

end Step

namespace Workspace

section

variable {σ : Type} (disk : Disk (StateM σ)) (editor : Editor (StateM σ)) (root? : Option Path)
  (s : σ) {workspace : Workspace}

/-- Without a session a reconciliation is a full build, on what the settings resolve to. -/
theorem exists_session_of_inactive (hsession : workspace.session? = none) :
    ∃ session, (Step.reconcile disk editor root? s).onWorkspace workspace
          = ⟨workspace.settings, .active session⟩
      ∧ (Step.reconcile disk editor root? s).fullBuild workspace = true
      ∧ (Step.reconcile disk editor root? s).resolved? workspace.settings
          = some session.config.classpath
      ∧ ∀ source ∈ session.sources, source.loader = session.loader := by
  obtain ⟨findings, hresult, hfound⟩ :=
    reconcile_inactive disk editor.ensures_any root? hsession s
  rw [Step.onWorkspace, Step.fullBuild, Step.resolved?, hresult]
  refine ⟨_, rfl, rfl, ?_, ?_⟩
  · rw [Session.config_insertAll]
    rfl
  · intro source hsource
    rw [Session.loader, Session.config_insertAll]
    rcases Session.mem_sources_insertAll hsource with hmem | hmem
    · exact (hfound source hmem).loader_eq
    · exact absurd hmem List.not_mem_nil

/-- With a session a reconciliation keeps its configuration, and so do the sources. -/
theorem exists_session_of_active {session : Session}
    (hsession : workspace.session? = some session) :
    ∃ session', (Step.reconcile disk editor root? s).onWorkspace workspace
          = ⟨workspace.settings, .active session'⟩
      ∧ (Step.reconcile disk editor root? s).fullBuild workspace = false
      ∧ session'.config = session.config
      ∧ ∀ source ∈ session'.sources, source ∈ session.sources ∨ source.loader = session.loader := by
  obtain ⟨findings, hresult, hfound⟩ :=
    reconcile_active disk editor.ensures_any root? (stage_of_session? hsession) s
  rw [Step.onWorkspace, Step.fullBuild, hresult]
  refine ⟨_, rfl, rfl, ?_, ?_⟩
  · rw [Session.config_insertAll, config_dropChanged]
  · intro source hsource
    rcases Session.mem_sources_insertAll hsource with hmem | hmem
    · exact Or.inr (hfound source hmem).loader_eq
    · exact Or.inl (Session.mem_sources_eraseAll hmem).1

theorem fullBuild_eq_true_iff :
    (Step.reconcile disk editor root? s).fullBuild workspace = true
      ↔ workspace.session? = none := by
  cases hsession : workspace.session? with
  | none =>
    obtain ⟨-, -, hfull, -⟩ := exists_session_of_inactive disk editor root? s hsession
    exact iff_of_true hfull rfl
  | some session =>
    obtain ⟨-, -, hfull, -⟩ := exists_session_of_active disk editor root? s hsession
    simp [hfull]

theorem exists_session_onWorkspace (workspace : Workspace) :
    ∃ session, (Step.reconcile disk editor root? s).onWorkspace workspace
      = ⟨workspace.settings, .active session⟩ := by
  cases hsession : workspace.session? with
  | none =>
    obtain ⟨session, hafter, -⟩ := exists_session_of_inactive disk editor root? s hsession
    exact ⟨session, hafter⟩
  | some session =>
    obtain ⟨session', hafter, -⟩ := exists_session_of_active disk editor root? s hsession
    exact ⟨session', hafter⟩

/-- What has been discarded leaves no trace: without a session a reconciliation is that of a new
workspace with the same settings. -/
theorem reconcile_eq_ofSettings (hsession : workspace.session? = none) :
    workspace.reconcile disk editor root?
      = (ofSettings workspace.settings).reconcile disk editor root? := by
  have hnew : (ofSettings workspace.settings).session? = none := rfl
  rw [reconcile_eq_of_inactive disk editor root? hsession,
    reconcile_eq_of_inactive disk editor root? hnew]
  rfl

end

/-- No step leads back to the time before the first session. -/
theorem stage_of_fresh {workspace : Workspace} {step : Step}
    (h : (step.onWorkspace workspace).stage = .fresh) : workspace.stage = .fresh := by
  cases step with
  | event event =>
    rcases event.onWorkspace_cases workspace with ⟨-, hkept⟩ | ⟨-, hstage⟩
    · rwa [Step.onWorkspace, hkept] at h
    · rw [Step.onWorkspace, hstage] at h
      cases hbefore : workspace.stage with
      | fresh => rfl
      | active session => exact nomatch hbefore ▸ h
      | discarded => exact nomatch hbefore ▸ h
  | reconcile disk editor root? s =>
    obtain ⟨session, hafter⟩ := exists_session_onWorkspace disk editor root? s workspace
    rw [hafter] at h
    exact nomatch h

/-- Only a session can be discarded. -/
theorem stage_of_discarded {workspace : Workspace} {step : Step}
    (h : (step.onWorkspace workspace).stage = .discarded) :
    workspace.stage = .discarded ∨ ∃ session, workspace.stage = .active session := by
  cases hbefore : workspace.stage with
  | discarded => exact Or.inl rfl
  | active session => exact Or.inr ⟨session, rfl⟩
  | fresh =>
    cases step with
    | event event =>
      rcases event.onWorkspace_cases workspace with ⟨-, hkept⟩ | ⟨-, hstage⟩
      · rw [Step.onWorkspace, hkept, hbefore] at h
        exact nomatch h
      · rw [Step.onWorkspace, hstage, hbefore] at h
        exact nomatch h
    | reconcile disk editor root? s =>
      obtain ⟨session, hafter⟩ := exists_session_onWorkspace disk editor root? s workspace
      rw [hafter] at h
      exact nomatch h

/-! ## Runs -/

/-- The workspace after a run. -/
def after (settings : Settings) (steps : List Step) : Workspace :=
  steps.foldl Step.onWorkspace (ofSettings settings)

theorem after_append_singleton (settings : Settings) (steps : List Step) (step : Step) :
    after settings (steps ++ [step]) = step.onWorkspace (after settings steps) := by
  rw [after, List.foldl_append]
  rfl

/-- Since the last reconciliation something happened that a session must not outlive. -/
def Unsettled (settings : Settings) (steps : List Step) : Prop :=
  ∃ before event later, steps = before ++ .event event :: later
    ∧ (∀ step ∈ later, step.isReconcile = false) ∧ event.Unsettles (after settings before)

theorem unsettled_append_event {settings : Settings} {steps : List Step} {event : Event} :
    Unsettled settings (steps ++ [.event event])
      ↔ event.Unsettles (after settings steps) ∨ Unsettled settings steps := by
  constructor
  · rintro ⟨before, event', later, hsteps, hlater, hunsettles⟩
    rcases eq_or_of_concat_eq hsteps with ⟨rfl, hevent, -⟩ | ⟨later', rfl, rfl⟩
    · rw [Step.event.inj hevent]
      exact Or.inl hunsettles
    · refine Or.inr ⟨before, event', later', rfl, fun step hstep => ?_, hunsettles⟩
      exact hlater step (List.mem_append_left _ hstep)
  · rintro (hunsettles | ⟨before, event', later, rfl, hlater, hunsettles⟩)
    · exact ⟨steps, event, [], rfl, fun _ h => absurd h List.not_mem_nil, hunsettles⟩
    · refine ⟨before, event', later ++ [.event event], by simp, fun step hstep => ?_, hunsettles⟩
      rcases List.mem_append.mp hstep with hmem | hmem
      · exact hlater step hmem
      · rw [List.mem_singleton.mp hmem]
        rfl

theorem not_unsettled_append_of_isReconcile {settings : Settings} {steps : List Step} {step : Step}
    (hstep : step.isReconcile = true) : ¬Unsettled settings (steps ++ [step]) := by
  rintro ⟨before, event, later, hsteps, hlater, -⟩
  rcases eq_or_of_concat_eq hsteps with ⟨-, rfl, -⟩ | ⟨later', rfl, -⟩
  · exact nomatch hstep
  · exact Bool.false_ne_true ((hlater step (List.mem_concat_self ..)).symm.trans hstep)

/-- **When there is no session**: before the first reconciliation, and when one is due. -/
theorem session?_after_eq_none_iff (settings : Settings) (steps : List Step) :
    (after settings steps).session? = none
      ↔ (∀ step ∈ steps, step.isReconcile = false) ∨ Unsettled settings steps := by
  induction steps using List.reverseRecOn with
  | nil => exact iff_of_true rfl (Or.inl fun _ h => absurd h List.not_mem_nil)
  | append_singleton steps step ih =>
    rw [after_append_singleton]
    cases step with
    | event event =>
      have hfirst : (∀ step ∈ steps ++ [.event event], step.isReconcile = false)
          ↔ ∀ step ∈ steps, step.isReconcile = false := by
        simp [or_imp, forall_and, Step.isReconcile]
      rw [unsettled_append_event, hfirst, Step.onWorkspace]
      rcases event.onWorkspace_cases (after settings steps) with
        ⟨hunsettles, hkept⟩ | ⟨hunsettles, hstage⟩
      · rw [hkept, ih]
        simp only [hunsettles, false_or]
      · refine iff_of_true ?_ (Or.inr (Or.inl hunsettles))
        exact Event.session?_of_stage_eq_discard hstage
    | reconcile disk editor root? s =>
      obtain ⟨session, hafter⟩ :=
        exists_session_onWorkspace disk editor root? s (after settings steps)
      rw [hafter]
      refine iff_of_false (Option.some_ne_none session) (not_or.mpr ⟨fun h => ?_, ?_⟩)
      · exact Bool.false_ne_true (h _ (List.mem_concat_self ..)).symm
      · exact not_unsettled_append_of_isReconcile rfl

/-- The last full build of a run: one after `before`, and `later` has none. -/
structure LastFullBuild (settings : Settings) (before : List Step) (built : Step)
    (later : List Step) : Prop where
  /-- It is one. -/
  isFullBuild : built.fullBuild (after settings before) = true
  /-- No later step is one. -/
  isLast : ∀ front step back, later = front ++ step :: back →
    step.fullBuild (after settings (before ++ built :: front)) = false

theorem LastFullBuild.append_singleton {settings : Settings} {before later : List Step}
    {built step : Step} (h : LastFullBuild settings before built later)
    (hstep : step.fullBuild (after settings (before ++ built :: later)) = false) :
    LastFullBuild settings before built (later ++ [step]) where
  isFullBuild := h.isFullBuild
  isLast := by
    intro front step' back hlater
    rcases eq_or_of_concat_eq hlater with ⟨rfl, rfl, -⟩ | ⟨back', -, rfl⟩
    · exact hstep
    · exact h.isLast front step' back' rfl

/-- **Where a session comes from.** It is on the classpath that the present settings gave at the last
full build, and so are all its sources. -/
theorem exists_lastFullBuild (settings : Settings) (steps : List Step) (session : Session)
    (hsession : (after settings steps).session? = some session) :
    ∃ before built later, steps = before ++ built :: later
      ∧ LastFullBuild settings before built later
      ∧ built.resolved? (after settings steps).settings = some session.config.classpath
      ∧ ∀ source ∈ session.sources, source.loader = session.loader := by
  induction steps using List.reverseRecOn generalizing session with
  | nil => cases hsession
  | append_singleton steps step ih =>
    rw [after_append_singleton] at hsession ⊢
    cases step with
    | event event =>
      -- The session is still there, so the event has left the workspace, settings and all.
      rcases event.onWorkspace_cases (after settings steps) with ⟨-, hkept⟩ | ⟨-, hstage⟩
      · rw [Step.onWorkspace, hkept] at hsession ⊢
        obtain ⟨before, built, later, rfl, hlast, hresolved, hloaders⟩ := ih session hsession
        exact ⟨before, built, later ++ [.event event], by simp, hlast.append_singleton rfl,
          hresolved, hloaders⟩
      · cases (Event.session?_of_stage_eq_discard hstage).symm.trans hsession
    | reconcile disk editor root? s =>
      cases hbefore : (after settings steps).session? with
      | none =>
        -- This reconciliation is the last full build.
        obtain ⟨session', hafter, hfull, hresolved, hloaders⟩ :=
          exists_session_of_inactive disk editor root? s hbefore
        rw [hafter] at hsession ⊢
        obtain rfl := Option.some.inj hsession
        refine ⟨steps, _, [], rfl, ⟨hfull, fun front step back h => ?_⟩, hresolved, hloaders⟩
        exact absurd h (by simp)
      | some session₀ =>
        -- The last full build stays what it was, and what has been added since has its loader.
        obtain ⟨session', hafter, hfull, hconfig, hsources⟩ :=
          exists_session_of_active disk editor root? s hbefore
        rw [hafter] at hsession ⊢
        obtain rfl := Option.some.inj hsession
        obtain ⟨before, built, later, rfl, hlast, hresolved, hloaders⟩ := ih session₀ hbefore
        refine ⟨before, built, later ++ [_], by simp, hlast.append_singleton hfull, ?_, ?_⟩
        · rw [hconfig]
          exact hresolved
        · intro source hsource
          have hloader : session'.loader = session₀.loader := congrArg Loader.mk hconfig
          rw [hloader]
          exact (hsources source hsource).elim (hloaders source) id

/-- **The life of a session.** After any run from a new workspace:
- a session is on the classpath that the present settings gave at the last full build, as are all
  its sources;
- a reconciliation is a full build exactly if it is the first one or if, since the last one, the
  session was discarded or the settings came to be other ones, for however short a time;
- only a session is discarded, and the time before the first session does not come back;
- while there is no session, nothing of an earlier one is left: a reconciliation does and answers
  what it would in a new workspace with the present settings. -/
theorem session_lifetime (settings : Settings) (steps : List Step) :
    (∀ session, (after settings steps).stage = .active session →
      ∃ before built later, steps = before ++ built :: later
        ∧ LastFullBuild settings before built later
        ∧ built.resolved? (after settings steps).settings = some session.config.classpath
        ∧ ∀ source ∈ session.sources, source.loader = session.loader)
    ∧ (∀ {σ : Type} (disk : Disk (StateM σ)) (editor : Editor (StateM σ)) (root? : Option Path)
        (s : σ),
        (Step.reconcile disk editor root? s).fullBuild (after settings steps) = true
          ↔ (∀ step ∈ steps, step.isReconcile = false) ∨ Unsettled settings steps)
    ∧ (∀ step, (after settings (steps ++ [step])).stage = .discarded →
        (after settings steps).stage = .discarded
          ∨ ∃ session, (after settings steps).stage = .active session)
    ∧ (∀ later, (after settings (steps ++ later)).stage = .fresh →
        (after settings steps).stage = .fresh)
    ∧ ((∀ session, (after settings steps).stage ≠ .active session) →
        (after settings steps).session? = none
        ∧ ∀ {σ : Type} (disk : Disk (StateM σ)) (editor : Editor (StateM σ)) (root? : Option Path),
            (after settings steps).reconcile disk editor root?
              = (ofSettings (after settings steps).settings).reconcile disk editor root?) := by
  refine ⟨fun session hstage => ?_, fun disk editor root? s => ?_, fun step hstage => ?_,
    fun later hstage => ?_, fun hstage => ?_⟩
  · have hsession : (after settings steps).session? = some session := by rw [session?, hstage]; rfl
    exact exists_lastFullBuild settings steps session hsession
  · rw [fullBuild_eq_true_iff, session?_after_eq_none_iff]
  · rw [after_append_singleton] at hstage
    exact stage_of_discarded hstage
  · induction later using List.reverseRecOn with
    | nil => rwa [List.append_nil] at hstage
    | append_singleton later step ih =>
      rw [← List.append_assoc, after_append_singleton] at hstage
      exact ih (stage_of_fresh hstage)
  · have hsession : (after settings steps).session? = none := by
      rw [Option.eq_none_iff_forall_ne_some]
      exact fun session h => hstage session (stage_of_session? h)
    exact ⟨hsession, fun disk editor root? => reconcile_eq_ofSettings disk editor root? hsession⟩

/-- A classpath that was changed and changed back: the settings are those of the session that was
discarded, and the next reconciliation is a full build all the same. -/
theorem session_lifetime_changed_back :
    let disk : Disk (StateM Unit) := FileSystem.empty.atRest
    let editor : Editor (StateM Unit) := Buffers.empty.atRest
    let first : Step := .reconcile disk editor none ()
    let steps : List Step := [first, .event (.withClasspath ["a.jar"]), .event (.withClasspath [])]
    (after ⟨[], none⟩ steps).settings = (after ⟨[], none⟩ [first]).settings
      ∧ (Step.reconcile disk editor none ()).fullBuild (after ⟨[], none⟩ steps) = true := by
  intro disk editor first steps
  have hunsettled : Unsettled ⟨[], none⟩ steps := by
    refine ⟨[first], .withClasspath ["a.jar"], [.event (.withClasspath [])], rfl, ?_, Or.inr ?_⟩
    · intro step hstep
      rw [List.mem_singleton.mp hstep]
      rfl
    · decide +kernel
  exact ⟨by decide +kernel,
    ((session_lifetime ⟨[], none⟩ steps).2.1 disk editor none ()).mpr (Or.inr hunsettled)⟩

end Workspace

end WorkspaceSession
