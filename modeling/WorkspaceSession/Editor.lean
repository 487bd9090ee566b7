/-
What the library asks of an editor.

Reconciling needs to know which documents are open, what their buffers hold, and which documents
changed since that was last asked; the answer to the last question is given once. Like the disk, the
editor is an interface over a monad of the caller's choice: between two questions it may do
anything. `Buffers` gives one editor as a value.
-/
import WorkspaceSession.Url.Basic

set_option autoImplicit false

namespace WorkspaceSession

/-- An editor that can be asked about documents. -/
structure Editor (m : Type → Type) where
  /-- The documents that changed since this was last asked. -/
  takeChanged : m (List Url)
  /-- The open documents. -/
  openUrls : m (List Url)
  /-- The text of an open document's buffer. -/
  text? : Url → m (Option String)
  /-- Whether a document is open. -/
  isOpen : Url → m Bool

end WorkspaceSession
