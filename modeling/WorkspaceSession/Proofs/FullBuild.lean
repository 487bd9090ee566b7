/-
What a full build finds.

Without a session a reconciliation makes one from nothing, and then the session is a matter of the
present disk and the present buffers alone. This file says which sources it holds, from both sides:
every source file that the root reaches and that can be read, unless its document is open, every
open document that has a location under the root, and nothing else. Pending changes take no part in
it, and none are left.

The buffers are the state here, so that what a reconciliation does to them is part of the statement
and not of its reading; the disk is any one that stays as it is during the call.
-/
import WorkspaceSession.Proofs.AtRest
import WorkspaceSession.Proofs.Reconciling

set_option autoImplicit false

namespace WorkspaceSession

namespace Workspace

/-! ## The session of a full build -/

/-- The editor whose state is its buffers. -/
def bufferEditor : Editor (StateM Buffers) :=
  Buffers.editor id fun _ buffers => buffers

section

variable (disk : Disk Id) (buffers : Buffers) (root? : Option Path) (workspace : Workspace)

/-- What a full build finds. -/
def builtFindings : List Survey.Finding :=
  (Survey.run disk buffers.atRest none root? (newLoader disk workspace)).run

/-- The session that a full build makes. -/
def builtSession : Session :=
  (Session.empty (newLoader disk workspace).config).insertAll
    (Survey.sources (builtFindings disk buffers root? workspace))

theorem ordered_builtSession : (builtSession disk buffers root? workspace).Ordered :=
  (Session.ordered_empty _).insertAll _

theorem loader_builtSession :
    (builtSession disk buffers root? workspace).loader = newLoader disk workspace := by
  rw [Session.loader, builtSession, Session.config_insertAll]
  rfl

/-- What a full build makes of a document is its fresh source. -/
theorem get?_builtSession (url : Url) :
    (builtSession disk buffers root? workspace).get? url
      = Survey.fresh disk buffers.atRest root? (newLoader disk workspace) url := by
  rw [builtSession, builtFindings, Session.get?_insertAll,
    Survey.find?_sources_run disk _ _ _ buffers.consistent_atRest]
  exact Option.or_none

end

/-- A full build settles on what it finds, whatever is pending, and forgets that. -/
theorem run_reconcile_fullBuild (disk : Disk Id) {root? : Option Path}
    (hroot : ∀ root, root? = some root → root.isAbsolute = true) {workspace : Workspace}
    (hsession : workspace.session? = none) (buffers : Buffers) (pending : List Url) :
    (workspace.reconcile disk.frozen bufferEditor root?).run { buffers with changed := pending }
      = (workspace.settled true (.empty (newLoader disk workspace).config, 0)
            (builtFindings disk buffers root? workspace),
          { buffers with changed := [] }) := by
  have hrun := @run_reconcile_editor Buffers id (fun _ after => after) (fun _ _ => rfl) disk.frozen
    disk { buffers with changed := pending } (disk.restsAt_frozen _) root? workspace
  rw [bufferEditor, hrun, run_reconcile_of_inactive disk _ root? hsession,
    run_rootPath disk hroot]
  rfl

/-! ## Its sources -/

/-- **A full build is exact.** On a disk that stays as it is, under an absolute root or none, the
session that it makes has a source for every source file below the root that can be read and is not
open, a source for every open document with a location under the root, and no other source, at most
one for each document. What was pending makes no difference and is no longer pending. -/
theorem reconcile_fullBuild {disk : Disk Id} (hdisk : disk.Lawful) {root? : Option Path}
    (hroot : ∀ root, root? = some root → root.isAbsolute = true) {workspace : Workspace}
    (hsession : workspace.session? = none) (buffers : Buffers) :
    ∃ session summary,
      (∀ pending,
        (workspace.reconcile disk.frozen bufferEditor root?).run { buffers with changed := pending }
          = (({ workspace with stage := .active session }, summary),
              { buffers with changed := [] }))
      ∧ session.Ordered
      ∧ ∀ source, source ∈ session.sources
          ↔ (∃ root path url bytes, root? = some root ∧ SourceFile disk root path
                ∧ Url.ofFilePath? path = some url ∧ buffers.isOpen url = false
                ∧ (disk.read path).run = .ok bytes
                ∧ source = .ofDisk url path bytes session.loader)
            ∨ ∃ url location content, buffers.text? url = some content
                ∧ Location.ofUrl url = .ok location
                ∧ (∀ root, root? = some root → location.liesIn root = true)
                ∧ source = .ofBuffer url location content session.loader := by
  refine ⟨builtSession disk buffers root? workspace, _,
    fun pending => run_reconcile_fullBuild disk hroot hsession buffers pending,
    ordered_builtSession disk buffers root? workspace, fun source => ?_⟩
  have hget : (builtSession disk buffers root? workspace).get? source.url = some source
      ↔ source ∈ (builtSession disk buffers root? workspace).sources ∧ source.url = source.url :=
    (ordered_builtSession disk buffers root? workspace).get?_eq_some_iff
  have hpresent : Survey.fresh disk buffers.atRest root? (newLoader disk workspace) source.url
        = some source
      ↔ Survey.Present disk buffers.atRest root? (newLoader disk workspace) source.url source :=
    Survey.fresh_eq_some_iff buffers.atRest root? (newLoader disk workspace) hdisk
  rw [get?_builtSession, hpresent] at hget
  rw [loader_builtSession]
  constructor
  · intro hsource
    have h := hget.mpr ⟨hsource, rfl⟩
    -- `Present` is indexed by the document, which has to be a variable for the cases.
    generalize source.url = url at h
    cases h with
    | file isClosed rooted isSource named isRead =>
      exact Or.inl ⟨_, _, url, _, rooted, isSource, named, isClosed, isRead, rfl⟩
    | buffer isOpen located inRoot held =>
      exact Or.inr ⟨url, _, _, held, located, inRoot, rfl⟩
  · rintro (⟨root, path, url, bytes, rooted, isSource, named, isClosed, isRead, rfl⟩
      | ⟨url, location, content, held, located, inRoot, rfl⟩)
    · exact (hget.mp (.file isClosed rooted isSource named isRead)).1
    · exact (hget.mp (.buffer (Buffers.isOpen_of_text? held) located inRoot held)).1

/-- A file in a nested directory, a link to it and an open document, while something else is
pending. -/
theorem reconcile_fullBuild_nested :
    let root : Path := .ofString "/w"
    let nested : Path := .ofString "/w/src/A.groovy"
    let link : Path := .ofString "/w/L.groovy"
    let url : Url := ⟨"file:///w/B.groovy"⟩
    let disk : Disk Id := ((FileSystem.empty.writeFile nested (.ofString "class A")).makeLink link
      (.ofString "src/A.groovy")).atRest
    let buffers : Buffers := Buffers.empty.openDocument url "class B" 1
    ∃ session summary,
      ((ofSettings ⟨[], none⟩).reconcile disk.frozen bufferEditor (some root)).run
          { buffers with changed := [⟨"file:///w/Gone.groovy"⟩] }
        = ((⟨⟨[], none⟩, .active session⟩, summary), { buffers with changed := [] })
      ∧ .ofDisk ⟨"file:///w/src/A.groovy"⟩ nested (.ofString "class A") session.loader
          ∈ session.sources
      ∧ .ofDisk ⟨"file:///w/L.groovy"⟩ link (.ofString "class A") session.loader
          ∈ session.sources
      ∧ .ofBuffer url (.ofString "/w/B.groovy") "class B" session.loader ∈ session.sources := by
  intro root nested link url disk buffers
  have hdisk : disk.Lawful := FileSystem.lawful_atRest (by decide)
  have hroot : ∀ root', some root = some root' → root'.isAbsolute = true := by
    rintro _ ⟨⟩
    decide
  have hleads : (disk.kind? root).run = some .directory := rfl
  have hreached : Survey.Reaches disk root root .directory := .root hleads rfl
  have hlisted : (disk.entries root).run
      = .ok [⟨.ofString "src", .directory⟩, ⟨.ofString "L.groovy", .link⟩] := rfl
  have hbelow : Survey.Reaches disk root (.ofString "/w/src") .directory :=
    hreached.entry hlisted List.mem_cons_self
  have hlistedBelow : (disk.entries (.ofString "/w/src")).run
      = .ok [⟨.ofString "A.groovy", .file⟩] := rfl
  have hnested : Survey.Reaches disk root nested .file :=
    hbelow.entry hlistedBelow List.mem_cons_self
  have hlink : Survey.Reaches disk root link .link :=
    hreached.entry hlisted (List.mem_cons_of_mem _ List.mem_cons_self)
  have hnew : (ofSettings ⟨[], none⟩).session? = none := rfl
  obtain ⟨session, summary, hrun, -, hsources⟩ := reconcile_fullBuild hdisk hroot hnew buffers
  refine ⟨session, summary, hrun _, (hsources _).mpr (Or.inl ?_), (hsources _).mpr (Or.inl ?_),
    (hsources _).mpr (Or.inr ?_)⟩
  · exact ⟨root, nested, _, _, rfl, ⟨by decide, Or.inl hnested⟩, by decide, by decide, rfl, rfl⟩
  · exact ⟨root, link, _, _, rfl, ⟨by decide, Or.inr ⟨hlink, rfl⟩⟩, by decide, by decide, rfl, rfl⟩
  · refine ⟨url, _, _, by decide, by decide, ?_, rfl⟩
    rintro _ ⟨⟩
    decide

end Workspace

end WorkspaceSession
