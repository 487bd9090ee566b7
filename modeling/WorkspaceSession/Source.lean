/-
What the compiler gets.

A source is one document with its text, the path that diagnostics name for it, and the loader by
which its library types are found. The loader is bound to one configuration, and the configuration
to one classpath, so a source never outlives the classpath that it was made for without showing it.
-/
import WorkspaceSession.Classpath
import WorkspaceSession.Text.Line
import WorkspaceSession.Url.Basic

set_option autoImplicit false

namespace WorkspaceSession

/-! ## Configuration -/

/-- How sources are compiled. -/
structure Configuration where
  /-- The encoding of source files. -/
  encoding : String
  /-- Whether doc comments stay attached to what they document. -/
  keepsDocComments : Bool
  /-- Whether doc comments can be read at run time. -/
  hasRuntimeDocComments : Bool
  /-- The libraries. -/
  classpath : Classpath
  deriving DecidableEq, Repr

/-- The configuration with the usual options and a classpath. -/
def Configuration.ofClasspath (classpath : Classpath) : Configuration :=
  ⟨"UTF-8", true, true, classpath⟩

/-- Finds library types on the classpath of one configuration. -/
structure Loader where
  /-- The configuration that the loader is bound to. -/
  config : Configuration
  deriving DecidableEq, Repr

/-- The first archive with a file name. -/
def Loader.archive? (loader : Loader) (name : String) : Option Path :=
  loader.config.classpath.find? name

/-! ## Sources -/

/-- Where the text of a source comes from. -/
inductive Origin where
  /-- From the file. -/
  | disk
  /-- From an open editor. -/
  | inMemory
  deriving DecidableEq, Repr

/-- The name of an origin. -/
def Origin.name : Origin → String
  | .disk => "disk"
  | .inMemory => "in-memory"

/-- One document as the compiler gets it. -/
structure Source where
  /-- The document. -/
  url : Url
  /-- The path that diagnostics name. -/
  location : Path
  /-- Where the text comes from. -/
  origin : Origin
  /-- The text. -/
  content : String
  /-- The loader for library types. -/
  loader : Loader
  deriving DecidableEq, Repr

namespace Source

/-- The source in a file. Bytes that are not UTF-8 become U+FFFD. -/
def ofDisk (url : Url) (path : Path) (bytes : Bytes) (loader : Loader) : Source :=
  ⟨url, path, .disk, bytes.display, loader⟩

/-- The source in the buffer of an open document. -/
def ofBuffer (url : Url) (location : Path) (content : String) (loader : Loader) : Source :=
  ⟨url, location, .inMemory, content, loader⟩

/-- The number of lines of a source. -/
def lineCount (source : Source) : Nat :=
  Text.countLines source.content.toList

end Source

end WorkspaceSession
