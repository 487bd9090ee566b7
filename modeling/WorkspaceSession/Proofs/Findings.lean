/-
What a survey can find, whatever the disk does.

The disk belongs to others. Over a state monad every question may be answered from a state that the
question itself moves, so a file may change between the listing of its directory and its reading,
and a walk may meet anything. What holds all the same is the shape of what is found: a source either
was read from a place whose URL is its own, for a document that was not open when it was asked, or
was taken from a buffer, and the survey was about it. `Survey.Found` says this once, and
`Survey.always_run` says that a survey finds nothing else.

`Workspace.reconcile_active` and `Workspace.reconcile_inactive` carry it to reconciliations. They
are inversion lemmas: everything that a reconciliation can do to a session is to drop the changed
documents, or to start from nothing, and then to add such sources.
-/
import Mathlib.Tactic.Common
import WorkspaceSession.Buffers
import WorkspaceSession.Proofs.SessionMap
import WorkspaceSession.Workspace

set_option autoImplicit false

namespace WorkspaceSession

/-! ## Outcomes -/

/-- Every outcome of a computation satisfies `p`, from whatever state it starts. -/
def Always {σ α : Type} (p : α → Prop) (x : StateM σ α) : Prop :=
  ∀ s, p (x.run s).1

namespace Always

variable {σ α β : Type}

theorem of_forall {p : α → Prop} (h : ∀ a, p a) (x : StateM σ α) : Always p x :=
  fun s => h (x.run s).1

theorem pure {p : α → Prop} {a : α} (h : p a) : Always (σ := σ) p (Pure.pure a) :=
  fun _ => h

theorem bind {p : α → Prop} {q : β → Prop} {x : StateM σ α} {f : α → StateM σ β}
    (hx : Always p x) (hf : ∀ a, p a → Always q (f a)) : Always q (x >>= f) :=
  fun s => hf _ (hx s) (x.run s).2

/-- A computation of which nothing is known may come first. -/
theorem bind_any {q : β → Prop} {x : StateM σ α} {f : α → StateM σ β}
    (hf : ∀ a, Always q (f a)) : Always q (x >>= f) :=
  bind (of_forall (p := fun _ => True) (fun _ => trivial) x) fun a _ => hf a

/-- What the second part ensures may speak of the answer of the first. -/
theorem run_bind {p : α → β → Prop} {x : StateM σ α} {f : α → StateM σ β}
    (h : ∀ a, Always (p a) (f a)) (s : σ) : p (x.run s).1 ((x >>= f).run s).1 :=
  h _ (x.run s).2

/-- Lists put together from lists of elements that satisfy `p`. -/
theorem mapM_flatten {p : β → Prop} {f : α → StateM σ (List β)} {l : List α}
    (h : ∀ a ∈ l, Always (fun bs => ∀ b ∈ bs, p b) (f a)) :
    Always (fun bss => ∀ b ∈ bss.flatten, p b) (l.mapM f) := by
  induction l with
  | nil =>
    rw [List.mapM_nil]
    exact pure (by simp)
  | cons a l ih =>
    rw [List.mapM_cons]
    refine bind (h a List.mem_cons_self) fun bs hbs => ?_
    refine bind (ih fun a' ha' => h a' (List.mem_cons_of_mem _ ha')) fun bss hbss => ?_
    refine pure fun b hb => ?_
    rw [List.flatten_cons, List.mem_append] at hb
    exact hb.elim (hbs b) (hbss b)

end Always

/-! ## Editors -/

/-- What the answers of an editor are good for: it answers that a document is not open only if
`closed` holds of it, and gives a text only if `holds` relates it to the document. -/
structure Editor.Ensures {σ : Type} (editor : Editor (StateM σ)) (closed : Url → Prop)
    (holds : Url → String → Prop) : Prop where
  /-- Of `isOpen`. -/
  isOpen : ∀ url, Always (fun answer => answer = false → closed url) (editor.isOpen url)
  /-- Of `text?`. -/
  text? : ∀ url, Always (fun answer => ∀ text, answer = some text → holds url text)
    (editor.text? url)

/-- Every editor is good for nothing in particular. -/
theorem Editor.ensures_any {σ : Type} (editor : Editor (StateM σ)) :
    editor.Ensures (fun _ => True) (fun _ _ => True) where
  isOpen := fun url => Always.of_forall (fun _ _ => trivial) (editor.isOpen url)
  text? := fun url => Always.of_forall (fun _ _ _ => trivial) (editor.text? url)

/-- An editor at rest answers from its buffers. -/
theorem Buffers.ensures_atRest {σ : Type} (buffers : Buffers) :
    (buffers.atRest : Editor (StateM σ)).Ensures (fun url => buffers.isOpen url = false)
      (fun url text => buffers.text? url = some text) where
  isOpen := fun _ => Always.pure id
  text? := fun _ => Always.pure fun _ => id

namespace Survey

/-! ## Findings -/

variable {σ : Type} {closed : Url → Prop} {holds : Url → String → Prop}
  {changed? : Option (List Url)} {loader : Loader}

/-- The sources that a survey can find, given what its editor's answers are good for. -/
inductive Found (closed : Url → Prop) (holds : Url → String → Prop) (changed? : Option (List Url))
    (loader : Loader) : Source → Prop
  /-- A file that was read. -/
  | file {url : Url} {path : Path} (bytes : Bytes) (about : isAbout changed? url = true)
      (isClosed : closed url) (named : Url.ofFilePath? path = some url) :
      Found closed holds changed? loader (.ofDisk url path bytes loader)
  /-- A buffer. -/
  | document {url : Url} {location : Path} {content : String} (about : isAbout changed? url = true)
      (located : Location.ofUrl url = .ok location) (held : holds url content) :
      Found closed holds changed? loader (.ofBuffer url location content loader)

/-- A survey finds no source that it is not about. -/
theorem Found.isAbout {s : Source} (h : Found closed holds changed? loader s) :
    isAbout changed? s.url = true := by
  cases h with
  | file bytes about isClosed named => exact about
  | document about located held => exact about

/-- A survey gives its loader to every source. -/
theorem Found.loader_eq {s : Source} (h : Found closed holds changed? loader s) :
    s.loader = loader := by
  cases h with
  | file bytes about isClosed named => rfl
  | document about located held => rfl

/-- What holds of a finding: if it is a source, then one that can be found. -/
def Sound (closed : Url → Prop) (holds : Url → String → Prop) (changed? : Option (List Url))
    (loader : Loader) (finding : Finding) : Prop :=
  ∀ s, finding = .ok s → Found closed holds changed? loader s

theorem sound_error (e : SurveyError) : Sound closed holds changed? loader (.error e) :=
  fun _ h => nomatch h

theorem mem_sources {findings : List Finding} {s : Source} :
    s ∈ sources findings ↔ .ok s ∈ findings := by
  simp only [sources, List.mem_filterMap]
  constructor
  · rintro ⟨finding, hmem, hs⟩
    cases finding with
    | error e => exact nomatch hs
    | ok s' => exact Option.some.inj hs ▸ hmem
  · exact fun h => ⟨_, h, rfl⟩

/-! ## One part of a survey after the other -/

/-- A walk meets only what its visits and refusals give. -/
theorem always_walk (disk : Disk (StateM σ)) {β : Type} {p : β → Prop}
    {visit : Path → NodeKind → StateM σ (List β)} {refused : Path → OsError → β}
    (hvisit : ∀ path kind, Always (fun bs => ∀ b ∈ bs, p b) (visit path kind))
    (hrefused : ∀ path e, p (refused path e)) (depth : Nat) (path : Path) (kind : NodeKind) :
    Always (fun bs => ∀ b ∈ bs, p b) (walk disk visit refused depth path kind) := by
  -- Nothing is asked of the disk: a listing may name anything, as `ih` holds of every place.
  induction depth generalizing path kind with
  | zero => exact Always.pure (by simp)
  | succ depth ih =>
    rw [walk]
    refine Always.bind (hvisit path kind) fun here hhere => ?_
    split_ifs
    · refine Always.bind_any fun answer => ?_
      cases answer with
      | error e =>
        refine Always.pure fun b hb => ?_
        rcases List.mem_append.mp hb with hb | hb
        · exact hhere b hb
        · exact List.mem_singleton.mp hb ▸ hrefused path e
      | ok entries =>
        refine Always.bind (Always.mapM_flatten fun entry _ => ih _ _) fun below hbelow => ?_
        refine Always.pure fun b hb => ?_
        rcases List.mem_append.mp hb with hb | hb
        · exact hhere b hb
        · exact hbelow b hb
    · exact Always.pure hhere

section

variable (disk : Disk (StateM σ)) {editor : Editor (StateM σ)}
  (heditor : editor.Ensures closed holds) (changed? : Option (List Url)) (loader : Loader)

include heditor

theorem always_readSource {path : Path} {url : Url} (hurl : Url.ofFilePath? path = some url) :
    Always (fun found => ∀ f ∈ found, Sound closed holds changed? loader f)
      (readSource disk editor changed? loader path url) := by
  rw [readSource]
  refine Always.bind (heditor.isOpen url) fun isOpen hclosed => ?_
  split_ifs with hopen habout
  · exact Always.pure (by simp)
  · refine Always.bind_any fun answer => ?_
    cases answer with
    | error e => exact Always.pure (by simpa using sound_error _)
    | ok bytes =>
      refine Always.pure fun f hf => ?_
      rw [List.mem_singleton.mp hf]
      rintro s ⟨⟩
      -- That the document was not open is known from the answer before the file was read.
      exact .file bytes habout (hclosed (by simpa using hopen)) hurl
  · exact Always.pure (by simp)

theorem always_findFile (path : Path) (kind : NodeKind) :
    Always (fun found => ∀ f ∈ found, Sound closed holds changed? loader f)
      (findFile disk editor changed? loader path kind) := by
  rw [findFile]
  refine Always.bind_any fun isSource => ?_
  split_ifs
  · cases hurl : Url.ofFilePath? path with
    | none => exact Always.pure (by simp)
    | some url => exact always_readSource disk heditor changed? loader hurl
  · exact Always.pure (by simp)

theorem always_files (root : Path) :
    Always (fun found => ∀ f ∈ found, Sound closed holds changed? loader f)
      (files disk editor changed? loader root) := by
  have hvisit := always_findFile disk heditor changed? loader
  have hrefused : ∀ path e, Sound closed holds changed? loader (.error (.walk root path e)) :=
    fun path e => sound_error _
  rw [files]
  refine Always.bind_any fun target? => ?_
  cases target? with
  | none => exact Always.pure (by simp)
  | some target =>
    refine Always.bind_any fun own => ?_
    rcases own with e | kind
    · exact Always.pure (by simpa using hrefused root e)
    · have hwalk := always_walk disk hvisit hrefused maxDepth root
      cases kind with
      | link =>
        -- Entered as a directory or visited as a link; both are covered.
        refine Always.bind_any fun isDirectory => ?_
        split_ifs
        · exact hwalk .directory
        · exact hvisit root .link
      | directory => exact hwalk .directory
      | file => exact hwalk .file
      | other => exact hwalk .other

omit disk in
theorem always_findDocument (root? : Option Path) (url : Url) :
    Always (fun found => ∀ f ∈ found, Sound closed holds changed? loader f)
      (findDocument editor changed? root? loader url) := by
  rw [findDocument]
  split_ifs with habout
  · cases hlocation : Location.ofUrl url with
    | error unknown => exact Always.pure (by simpa using sound_error _)
    | ok location =>
      dsimp only
      split_ifs
      · refine Always.bind (heditor.text? url) fun answer hholds => ?_
        cases answer with
        | none => exact Always.pure (by simp)
        | some content =>
          refine Always.pure fun f hf => ?_
          rw [List.mem_singleton.mp hf]
          rintro s ⟨⟩
          exact .document habout hlocation (hholds content rfl)
      · exact Always.pure (by simp)
  · exact Always.pure (by simp)

omit disk in
theorem always_documents (root? : Option Path) :
    Always (fun found => ∀ f ∈ found, Sound closed holds changed? loader f)
      (documents editor changed? root? loader) := by
  rw [documents]
  refine Always.bind_any fun urls => ?_
  refine Always.bind (Always.mapM_flatten fun url _ => ?_) fun found hfound => Always.pure hfound
  exact always_findDocument heditor changed? loader root? url

/-- **A survey finds only what can be found**, whatever the disk answers and however often it
changes its mind. -/
theorem always_run (root? : Option Path) :
    Always (fun found => ∀ s ∈ sources found, Found closed holds changed? loader s)
      (run disk editor changed? root? loader) := by
  have hfiles : Always (fun found => ∀ f ∈ found, Sound closed holds changed? loader f)
      (inWorkspace disk editor changed? loader root?) := by
    cases root? with
    | none => exact Always.pure (by simp)
    | some root => exact always_files disk heditor changed? loader root
  unfold run
  refine Always.bind hfiles fun inFiles hinFiles => ?_
  have hdocuments := always_documents heditor changed? loader root?
  refine Always.bind hdocuments fun inDocuments hinDocuments => ?_
  refine Always.pure fun s hs => ?_
  rcases List.mem_append.mp (mem_sources.mp hs) with h | h
  · exact hinFiles _ h s rfl
  · exact hinDocuments _ h s rfl

end

end Survey

namespace Workspace

/-! ## Reconciliations -/

variable {σ : Type} {closed : Url → Prop} {holds : Url → String → Prop}

/-- What a reconciliation leaves: the sources found, added to what was kept of the session, and the
account of it. -/
def settled (workspace : Workspace) (fullBuild : Bool) (kept : Session × Nat)
    (findings : List Survey.Finding) : Workspace × Summary :=
  ({ workspace with stage := .active (kept.1.insertAll (Survey.sources findings)) },
    ⟨fullBuild, kept.2, (Survey.sources findings).length, Survey.errors findings⟩)

@[simp] theorem session?_settled (workspace : Workspace) (fullBuild : Bool) (kept : Session × Nat)
    (findings : List Survey.Finding) :
    (workspace.settled fullBuild kept findings).1.session?
      = some (kept.1.insertAll (Survey.sources findings)) := rfl

theorem stage_of_session? {workspace : Workspace} {session : Session}
    (h : workspace.session? = some session) : workspace.stage = .active session := by
  rw [session?] at h
  cases hstage : workspace.stage with
  | active session' => rw [hstage] at h; exact congrArg _ (Option.some.inj h)
  | fresh => rw [hstage] at h; exact nomatch h
  | discarded => rw [hstage] at h; exact nomatch h

theorem sessionOrNew_active {m : Type → Type} [Monad m] {disk : Disk m} {workspace : Workspace}
    {session : Session} (hstage : workspace.stage = .active session) :
    sessionOrNew disk workspace = pure (session, false) := by
  rw [sessionOrNew, hstage]

@[simp] theorem config_dropChanged (session : Session) (changed? : Option (List Url)) :
    (dropChanged session changed?).1.config = session.config := by
  cases changed? with
  | none => rfl
  | some changed => exact Session.config_eraseAll session _

theorem sessionOrNew_inactive {m : Type → Type} [Monad m] {disk : Disk m} {workspace : Workspace}
    (hstage : workspace.session? = none) :
    sessionOrNew disk workspace = do
      let classpath ←
        Classpath.resolve disk workspace.settings.classpath workspace.settings.libraryDirectory?
      return (.empty (.ofClasspath classpath), true) := by
  rw [sessionOrNew]
  cases hw : workspace.stage with
  | active session => rw [session?, hw] at hstage; exact nomatch hstage
  | fresh => rfl
  | discarded => rfl

section

variable {m : Type → Type} [Monad m] [LawfulMonad m] (disk : Disk m) (editor : Editor m)
  (root? : Option Path) {workspace : Workspace}

/-- Reconciling with a session: one survey of the changed documents, settled on the session without
them. -/
theorem reconcile_eq_of_active {session : Session} (hstage : workspace.stage = .active session) :
    workspace.reconcile disk editor root? = do
      let changed ← editor.takeChanged
      let root? ← rootPath disk root?
      let findings ← Survey.run disk editor (some changed) root? session.loader
      return workspace.settled false (dropChanged session (some changed)) findings := by
  have hloader : ∀ changed, (dropChanged session (some changed)).1.loader = session.loader := by
    intro changed
    simp only [Session.loader, config_dropChanged]
  simp only [reconcile, sessionOrNew_active hstage, pure_bind, settled, hloader,
    Bool.false_eq_true, if_false]

/-- Reconciling without a session: one survey of everything, settled on an empty session. -/
theorem reconcile_eq_of_inactive (hstage : workspace.session? = none) :
    workspace.reconcile disk editor root? = do
      let _ ← editor.takeChanged
      let classpath ←
        Classpath.resolve disk workspace.settings.classpath workspace.settings.libraryDirectory?
      let root? ← rootPath disk root?
      let findings ← Survey.run disk editor none root? ⟨.ofClasspath classpath⟩
      return workspace.settled true (.empty (.ofClasspath classpath), 0) findings := by
  simp only [reconcile, sessionOrNew_inactive hstage, bind_assoc, pure_bind, settled, dropChanged,
    if_true]
  rfl

end

/-- An incremental reconciliation settles on findings of which everything holds that holds of all
surveys under the roots that it can have. -/
theorem reconcile_active_of (disk : Disk (StateM σ)) (editor : Editor (StateM σ))
    {root? : Option Path} {workspace : Workspace} {session : Session}
    (hstage : workspace.stage = .active session) {r : Option Path → Prop}
    (hroot : Always r (rootPath disk root?)) {q : List Url → List Survey.Finding → Prop}
    (hrun : ∀ changed root?, r root? →
      Always (q changed) (Survey.run disk editor (some changed) root? session.loader)) (s : σ) :
    ∃ findings, ((workspace.reconcile disk editor root?).run s).1
        = workspace.settled false (dropChanged session (some (editor.takeChanged.run s).1)) findings
      ∧ q (editor.takeChanged.run s).1 findings := by
  rw [reconcile_eq_of_active disk editor root? hstage]
  refine Always.run_bind (p := fun changed result => ∃ findings,
    result = workspace.settled false (dropChanged session (some changed)) findings
      ∧ q changed findings) (fun changed => ?_) s
  -- `changed` is any answer from here on; `run_bind` keeps that it is the editor's one from `s`.
  refine Always.bind hroot fun root? hroot => ?_
  exact Always.bind (hrun changed root? hroot) fun findings hfindings =>
    Always.pure ⟨findings, rfl, hfindings⟩

/-- **An incremental reconciliation** drops the changed documents and adds sources of changed
documents that can be found, and does nothing else. -/
theorem reconcile_active (disk : Disk (StateM σ)) {editor : Editor (StateM σ)}
    (heditor : editor.Ensures closed holds) (root? : Option Path) {workspace : Workspace}
    {session : Session} (hstage : workspace.stage = .active session) (s : σ) :
    ∃ findings, ((workspace.reconcile disk editor root?).run s).1
        = workspace.settled false (dropChanged session (some (editor.takeChanged.run s).1)) findings
      ∧ ∀ source ∈ Survey.sources findings,
          Survey.Found closed holds (some (editor.takeChanged.run s).1) session.loader source :=
  reconcile_active_of disk editor hstage (Always.of_forall (p := fun _ => True) (fun _ => trivial) _)
    (q := fun changed findings => ∀ source ∈ Survey.sources findings,
      Survey.Found closed holds (some changed) session.loader source)
    (fun changed root? _ => Survey.always_run disk heditor (some changed) session.loader root?) s

/-- The classpath that a full build resolves, which happens after it has taken the changes. -/
def resolved {m : Type → Type} [Monad m] (disk : Disk m) (editor : Editor m) (settings : Settings) :
    m Classpath := do
  let _ ← editor.takeChanged
  Classpath.resolve disk settings.classpath settings.libraryDirectory?

/-- A full build settles on findings of which everything holds that holds of all surveys under the
roots that it can have. -/
theorem reconcile_inactive_of (disk : Disk (StateM σ)) (editor : Editor (StateM σ))
    {root? : Option Path} {workspace : Workspace} (hstage : workspace.session? = none)
    {r : Option Path → Prop} (hroot : Always r (rootPath disk root?))
    {q : Classpath → List Survey.Finding → Prop}
    (hrun : ∀ classpath root?, r root? →
      Always (q classpath) (Survey.run disk editor none root? ⟨.ofClasspath classpath⟩)) (s : σ) :
    ∃ findings, ((workspace.reconcile disk editor root?).run s).1
        = workspace.settled true
            (.empty (.ofClasspath ((resolved disk editor workspace.settings).run s).1), 0) findings
      ∧ q ((resolved disk editor workspace.settings).run s).1 findings := by
  rw [reconcile_eq_of_inactive disk editor root? hstage, ← bind_assoc]
  refine Always.run_bind (p := fun classpath result => ∃ findings,
    result = workspace.settled true (.empty (.ofClasspath classpath), 0) findings
      ∧ q classpath findings) (fun classpath => ?_) s
  refine Always.bind hroot fun root? hroot => ?_
  exact Always.bind (hrun classpath root? hroot) fun findings hfindings =>
    Always.pure ⟨findings, rfl, hfindings⟩

/-- **A full build** adds to a session without sources, on the classpath that it resolves, what can
be found of any document. -/
theorem reconcile_inactive (disk : Disk (StateM σ)) {editor : Editor (StateM σ)}
    (heditor : editor.Ensures closed holds) (root? : Option Path) {workspace : Workspace}
    (hstage : workspace.session? = none) (s : σ) :
    ∃ findings, ((workspace.reconcile disk editor root?).run s).1
        = workspace.settled true
            (.empty (.ofClasspath ((resolved disk editor workspace.settings).run s).1), 0) findings
      ∧ ∀ source ∈ Survey.sources findings,
          Survey.Found closed holds none
            ⟨.ofClasspath ((resolved disk editor workspace.settings).run s).1⟩ source :=
  reconcile_inactive_of disk editor hstage
    (Always.of_forall (p := fun _ => True) (fun _ => trivial) _)
    (q := fun classpath findings => ∀ source ∈ Survey.sources findings,
      Survey.Found closed holds none ⟨.ofClasspath classpath⟩ source)
    (fun classpath root? _ => Survey.always_run disk heditor none ⟨.ofClasspath classpath⟩ root?) s

end Workspace

end WorkspaceSession
