/-
The compiler session.

A session holds the configuration that its sources are compiled with and at most one source for
each document, kept in the order of their URLs. Adding a source replaces the one of the same
document, and nothing but adding and removing changes the sources.
-/
import WorkspaceSession.Source

set_option autoImplicit false

namespace WorkspaceSession

/-- Adds a source to sources ordered by URL; one of the same document is replaced. -/
def insertSource (source : Source) : List Source → List Source
  | [] => [source]
  | other :: rest =>
    if source.url.text < other.url.text then source :: other :: rest
    else if source.url = other.url then source :: rest
    else other :: insertSource source rest

/-- A configuration and the sources compiled with it. -/
structure Session where
  /-- The configuration. -/
  config : Configuration
  /-- The sources in the order of their URLs. -/
  sources : List Source
  deriving DecidableEq, Repr

namespace Session

/-- A session without sources. -/
def empty (config : Configuration) : Session :=
  ⟨config, []⟩

/-- The loader of the session's configuration. -/
def loader (session : Session) : Loader :=
  ⟨session.config⟩

/-! ## Looking -/

/-- The source of a document. -/
def get? (session : Session) (url : Url) : Option Source :=
  session.sources.find? fun source => source.url = url

/-- Whether a document has a source. -/
def contains (session : Session) (url : Url) : Bool :=
  (session.get? url).isSome

/-- The number of sources. -/
def size (session : Session) : Nat :=
  session.sources.length

/-- Whether there is no source. -/
def isEmpty (session : Session) : Bool :=
  session.sources.isEmpty

/-- The documents of the session in order. -/
def urls (session : Session) : List Url :=
  session.sources.map Source.url

/-! ## Changing -/

/-- Adds a source, and gives the one that it replaces. -/
def insert (session : Session) (source : Source) : Session × Option Source :=
  ({ session with sources := insertSource source session.sources }, session.get? source.url)

/-- Adds sources one after the other. -/
def insertAll (session : Session) (sources : List Source) : Session :=
  sources.foldl (fun session source => (session.insert source).1) session

/-- Removes the source of one document. -/
def erase (session : Session) (url : Url) : Session :=
  { session with sources := session.sources.filter fun source => source.url ≠ url }

/-- Removes the sources of documents, and counts those that there were. -/
def eraseAll (session : Session) (urls : List Url) : Session × Nat :=
  urls.foldl
    (fun (session, count) url =>
      (session.erase url, if session.contains url then count + 1 else count))
    (session, 0)

end Session

end WorkspaceSession
