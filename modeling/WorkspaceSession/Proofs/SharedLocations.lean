/-
One location, two sources.

A session has one source for each document, and a document is its URL. An open document takes
precedence over the file of its URL, and of that one only: a walk asks the editor about the URL that
it makes of the file's path. A document may be addressed by another URL that leads to the same path,
with a letter escaped that need not be, with another scheme or with a query, or it may be a virtual
one that lies there; then the file has its own source beside it.

This file says that nothing else brings two sources to one place. If a source from the disk and one
from a buffer have the same location, then the first has the URL of the file there, which is not
open, and the second is addressed by a URL that is no file's URL at all
(`Workspace.reconcile_sharedLocation`). An editor that addresses files by their URLs never gets a
file twice.
-/
import WorkspaceSession.Proofs.FileLocations
import WorkspaceSession.Proofs.Origins

set_option autoImplicit false

namespace WorkspaceSession

/-- A document that is addressed by the URL of a file has the URL of the file at its location. -/
theorem Location.ofFilePath?_of_ofUrl {path location : Path} {url : Url}
    (hnamed : Url.ofFilePath? path = some url) (hlocation : Location.ofUrl url = .ok location) :
    Url.ofFilePath? location = some url := by
  obtain ⟨location', hlocation', hcomponents⟩ := exists_ofUrl_of_ofFilePath? hnamed
  obtain rfl := Except.ok.inj (hlocation.symm.trans hlocation')
  rw [Url.ofFilePath?_congr hcomponents, hnamed]

/-- Two faithful sources of one place, from the disk and from a buffer, are the file's own and one
of a document under a URL that is no file's. -/
theorem Source.Faithful.of_same_location {buffers : Buffers} {onDisk inBuffer : Source}
    (honDisk : onDisk.Faithful buffers) (hinBuffer : inBuffer.Faithful buffers)
    (hdisk : onDisk.origin = .disk) (hbuffer : inBuffer.origin = .inMemory)
    (hsame : onDisk.location.same inBuffer.location = true) :
    Url.ofFilePath? inBuffer.location = some onDisk.url ∧ buffers.isOpen onDisk.url = false
      ∧ ∀ path, Url.ofFilePath? path ≠ some inBuffer.url := by
  have hcomponents : onDisk.location.components = inBuffer.location.components :=
    of_decide_eq_true hsame
  have hfile : Url.ofFilePath? inBuffer.location = some onDisk.url := by
    rw [← Url.ofFilePath?_congr hcomponents]
    exact honDisk.ofFile hdisk
  have hclosed : buffers.isOpen onDisk.url = false := by
    rw [Bool.eq_false_iff]
    intro hopen
    exact nomatch hdisk.symm.trans (honDisk.inMemory_iff.mpr hopen)
  refine ⟨hfile, hclosed, fun path hnamed => ?_⟩
  -- A file's URL would be the one of the file at the location, which is not open.
  have hurl := Location.ofFilePath?_of_ofUrl hnamed (hinBuffer.ofBuffer hbuffer).2
  have hopen : buffers.isOpen onDisk.url = true := by
    rw [Option.some.inj (hfile.symm.trans hurl)]
    exact hinBuffer.inMemory_iff.mp hbuffer
  exact Bool.false_ne_true (hclosed.symm.trans hopen)

namespace Workspace

/-- **Shared locations.** Whatever happened before and whatever the disk does, right after a
reconciliation a source from the disk and a source from a buffer have the same location only if the
open document is addressed by a URL that is no file's. The source from the disk is then that of the
file's own URL, which is not open. -/
theorem reconcile_sharedLocation {workspace : Workspace} {buffers : Buffers}
    (h : Reachable workspace buffers) {σ : Type} (disk : Disk (StateM σ)) (s : σ)
    (root? : Option Path) :
    ∃ session,
      ((workspace.reconcile disk buffers.atRest root?).run s).1.1.session? = some session
        ∧ ∀ onDisk ∈ session.sources, ∀ inBuffer ∈ session.sources,
          onDisk.origin = .disk → inBuffer.origin = .inMemory →
            onDisk.location.same inBuffer.location = true →
              Url.ofFilePath? inBuffer.location = some onDisk.url
                ∧ buffers.isOpen onDisk.url = false
                ∧ ∀ path, Url.ofFilePath? path ≠ some inBuffer.url := by
  obtain ⟨session, hsession, hfaithful⟩ := h.faithfulButPending.reconcile disk s root?
  refine ⟨session, hsession, fun onDisk honDisk inBuffer hinBuffer => ?_⟩
  exact (hfaithful onDisk honDisk).of_same_location (hfaithful inBuffer hinBuffer)

/-- A file that is open under its own URL has one source, although the file is there too. -/
theorem reconcile_sharedLocation_own_url :
    let path : Path := .ofString "/w/A.groovy"
    let url : Url := ⟨"file:///w/A.groovy"⟩
    let disk : Disk (StateM Unit) := (FileSystem.empty.writeFile path (.ofString "class A")).atRest
    let opened : Buffers := Buffers.empty.openDocument url "class B" 1
    ∃ session,
      (((ofSettings ⟨[], none⟩).reconcile disk opened.atRest (some (.ofString "/w"))).run
          ()).1.1.session? = some session
        ∧ ∀ onDisk ∈ session.sources, ∀ inBuffer ∈ session.sources,
          onDisk.origin = .disk → inBuffer.origin = .inMemory → inBuffer.url = url →
            onDisk.location.same inBuffer.location = false := by
  intro path url disk opened
  have hopened : Reachable (ofSettings ⟨[], none⟩) opened :=
    .event (.openDocument url "class B" 1) (.start ⟨[], none⟩)
  obtain ⟨session, hsession, hshared⟩ :=
    reconcile_sharedLocation hopened disk () (some (.ofString "/w"))
  refine ⟨session, hsession, fun onDisk honDisk inBuffer hinBuffer hdisk hbuffer hurl => ?_⟩
  rw [Bool.eq_false_iff]
  intro hsame
  obtain ⟨-, -, hother⟩ := hshared onDisk honDisk inBuffer hinBuffer hdisk hbuffer hsame
  have hnamed : Url.ofFilePath? path = some url := by decide
  exact hother path (hurl ▸ hnamed)

/-- A file that is open under a URL with a needless escape has a second source at its place. -/
theorem exists_shared_location_of_escaped :
    let root : Path := .ofString "/w"
    let path : Path := .ofString "/w/A.groovy"
    let url : Url := ⟨"file:///w/%41.groovy"⟩
    let disk : Disk (StateM Unit) := (FileSystem.empty.writeFile path (.ofString "class A")).atRest
    let opened : Buffers := Buffers.empty.openDocument url "class B" 1
    Url.parse "file:///w/%41.groovy" = .ok url
      ∧ root.isAbsolute = true ∧ Path.Component.parent ∉ root.components
      ∧ Reachable (ofSettings ⟨[], none⟩) opened
      ∧ ∃ session,
          (((ofSettings ⟨[], none⟩).reconcile disk opened.atRest (some root)).run ()).1.1.session?
              = some session
            ∧ ∃ onDisk ∈ session.sources, ∃ inBuffer ∈ session.sources,
              onDisk.origin = .disk ∧ inBuffer.origin = .inMemory
                ∧ onDisk.location.same inBuffer.location = true := by
  intro root path url disk opened
  refine ⟨by decide, by decide, by decide, .event (.openDocument url "class B" 1) (.start _), ?_⟩
  have hsession : ∃ session,
      (((ofSettings ⟨[], none⟩).reconcile disk opened.atRest (some root)).run ()).1.1.session?
        = some session := ⟨_, rfl⟩
  obtain ⟨session, hsession⟩ := hsession
  refine ⟨session, hsession, ?_⟩
  have hsources : (((ofSettings ⟨[], none⟩).reconcile disk opened.atRest (some root)).run
      ()).1.1.session?.map Session.sources
        = some [.ofBuffer url path "class B" ⟨.ofClasspath ⟨[]⟩⟩,
            .ofDisk ⟨"file:///w/A.groovy"⟩ path (.ofString "class A") ⟨.ofClasspath ⟨[]⟩⟩] := by
    decide +kernel
  rw [hsession] at hsources
  rw [Option.some.inj hsources]
  refine ⟨_, List.mem_cons_of_mem _ List.mem_cons_self, _, List.mem_cons_self, rfl, rfl, ?_⟩
  decide

end Workspace

end WorkspaceSession
