/-
Open documents and pending changes.

The buffers of an editor are fed by what happens in it: opening, changing and closing a document
each make it a changed one, also where nothing is open that could change or close, and so does the
news that a file changed on disk. Pending changes are a set; they are forgotten when they are taken.
-/
import WorkspaceSession.Document
import WorkspaceSession.Editor
import WorkspaceSession.Url.Parser

set_option autoImplicit false

namespace WorkspaceSession

/-- The open documents of an editor and the changes not yet taken. -/
structure Buffers where
  /-- The open documents, each once, the latest to be opened last. -/
  documents : List (Url × Document)
  /-- The documents that changed, each once. -/
  changed : List Url
  deriving DecidableEq, Repr

namespace Buffers

/-- No open document and no change. -/
def empty : Buffers :=
  ⟨[], []⟩

/-! ## Looking -/

/-- An open document. -/
def get? (buffers : Buffers) (url : Url) : Option Document :=
  (buffers.documents.find? fun entry => entry.1 = url).map Prod.snd

/-- Whether a document is open. -/
def isOpen (buffers : Buffers) (url : Url) : Bool :=
  (buffers.get? url).isSome

/-- The text of an open document. -/
def text? (buffers : Buffers) (url : Url) : Option String :=
  (buffers.get? url).map Document.text

/-- The open documents. -/
def openUrls (buffers : Buffers) : List Url :=
  buffers.documents.map Prod.fst

/-! ## What happens in an editor -/

/-- Makes a document a changed one. -/
def noteChanged (buffers : Buffers) (url : Url) : Buffers :=
  if url ∈ buffers.changed then buffers
  else { buffers with changed := buffers.changed ++ [url] }

/-- Opens a document, over its former buffer if it was open. -/
def openDocument (buffers : Buffers) (url : Url) (text : String) (version : Int) : Buffers :=
  let others := buffers.documents.filter fun entry => entry.1 ≠ url
  noteChanged { buffers with documents := others ++ [(url, ⟨text, version⟩)] } url

/-- Applies a batch of edits to a document, if it is open. -/
def editDocument (buffers : Buffers) (url : Url) (version : Int) (edits : List Edit) : Buffers :=
  let documents := buffers.documents.map fun entry =>
    if entry.1 = url then (entry.1, entry.2.applyEdits edits version) else entry
  noteChanged { buffers with documents := documents } url

/-- Closes a document; its file counts again. -/
def closeDocument (buffers : Buffers) (url : Url) : Buffers :=
  let documents := buffers.documents.filter fun entry => entry.1 ≠ url
  noteChanged { buffers with documents := documents } url

/-- The pending changes, and the buffers without them. -/
def takeChanged (buffers : Buffers) : List Url × Buffers :=
  (buffers.changed, { buffers with changed := [] })

/-! ## Notifications

A client names documents by text. A text that is no absolute URL fails the notification and leaves
everything as it was; a list of watched files is gone through to its end all the same, and the
first text that is none is the failure. -/

/-- A client's name for a document that is no absolute URL. -/
structure InvalidUri where
  /-- The name as received. -/
  uri : String
  /-- What is wrong with it. -/
  cause : Url.ParseError
  deriving DecidableEq, Repr

/-- The wording of a failed notification. -/
def InvalidUri.message (e : InvalidUri) : String :=
  "invalid document uri " ++ e.uri ++ ": " ++ e.cause.message

/-- The document that a client names. -/
def documentOf (uri : String) : Except InvalidUri Url :=
  (Url.parse uri).mapError fun cause => ⟨uri, cause⟩

/-- The client has opened a document. -/
def didOpen (buffers : Buffers) (uri text : String) (version : Int) : Except InvalidUri Buffers :=
  (documentOf uri).map fun url => buffers.openDocument url text version

/-- The client has changed a document. -/
def didChange (buffers : Buffers) (uri : String) (version : Int) (edits : List Edit) :
    Except InvalidUri Buffers :=
  (documentOf uri).map fun url => buffers.editDocument url version edits

/-- The client has closed a document. -/
def didClose (buffers : Buffers) (uri : String) : Except InvalidUri Buffers :=
  (documentOf uri).map buffers.closeDocument

/-- Files that the client watches have changed: the buffers after it, and the first failure. -/
def didChangeWatchedFiles (buffers : Buffers) : List String → Buffers × Option InvalidUri
  | [] => (buffers, none)
  | uri :: rest =>
    match documentOf uri with
    | .ok url => (buffers.noteChanged url).didChangeWatchedFiles rest
    | .error e =>
      let (after, _) := buffers.didChangeWatchedFiles rest
      (after, some e)

/-! ## The editor -/

/-- The editor with these buffers, in which nothing happens any more. -/
def atRest {m : Type → Type} [Monad m] (buffers : Buffers) : Editor m where
  takeChanged := pure buffers.changed
  openUrls := pure buffers.openUrls
  text? := fun url => pure (buffers.text? url)
  isOpen := fun url => pure (buffers.isOpen url)

/-- The editor with the buffers in a state, of which its questions only take the changes. -/
def editor {σ : Type} (get : σ → Buffers) (set : σ → Buffers → σ) : Editor (StateM σ) where
  takeChanged := fun s =>
    let (changed, buffers) := (get s).takeChanged
    (changed, set s buffers)
  openUrls := fun s => ((get s).openUrls, s)
  text? := fun url s => ((get s).text? url, s)
  isOpen := fun url s => ((get s).isOpen url, s)

end Buffers

end WorkspaceSession
