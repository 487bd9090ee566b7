/-
Where a document lies.

Editors address documents by URL, and some documents have no file behind them. The front end still
needs a path for every document, to attach its diagnostics to. A virtual document lies where a file
of its name would: its file form is the `file` URL of its host and path with the source extension
behind them, and its query and fragment do not take part. If the file form is no URL, the document's
own URL is asked for a path instead, and the reason is kept for the report in case that has none
either.
-/
import WorkspaceSession.Url.Parser
import WorkspaceSession.Url.FilePath
import WorkspaceSession.Text.Quoted

set_option autoImplicit false

namespace WorkspaceSession

/-- The extension of source files. -/
def sourceExtension : String := "groovy"

/-- The scheme of documents without a file. -/
def virtualScheme : String := "inmemory"

/-- The scheme of files. -/
def fileScheme : String := "file"

namespace Location

/-! ## File forms -/

/-- Whether a document has no file behind it. -/
def isVirtual (url : Url) : Bool :=
  url.scheme = virtualScheme.toList

/-- The file form of a virtual document's URL, as text. -/
def fileFormText (url : Url) : String :=
  String.ofList ((fileScheme ++ "://").toList ++ url.host ++ url.path
    ++ ("." ++ sourceExtension).toList)

/-- Why a virtual document has no file form: the text of it is no URL. -/
structure BadForm where
  /-- The document. -/
  url : Url
  /-- The text. -/
  candidate : String
  /-- What is wrong with the text. -/
  cause : Url.ParseError
  deriving DecidableEq, Repr

/-- The wording of a missing file form. -/
def BadForm.message (e : BadForm) : String :=
  "cannot normalize " ++ e.url.text ++ ": rewritten form " ++ Text.Quoted.encode e.candidate
    ++ " is invalid: " ++ e.cause.message

/-- The URL that says where a document lies: the file form of a virtual document, the document's own
URL otherwise. -/
def fileForm [Url.DomainNames] (url : Url) : Except BadForm Url :=
  if isVirtual url then
    (Url.parse (fileFormText url)).mapError fun cause => ⟨url, fileFormText url, cause⟩
  else .ok url

/-! ## Paths -/

/-- Why a document has no location. -/
structure Unknown where
  /-- The document. -/
  url : Url
  /-- Why it has no file form, if that led here. -/
  cause? : Option BadForm
  deriving DecidableEq, Repr

/-- The wording of a missing location. -/
def Unknown.message (e : Unknown) : String :=
  "cannot derive a source location for " ++ e.url.text

/-- The path of a document. -/
def ofUrl [Url.DomainNames] (url : Url) : Except Unknown Path :=
  let (place, cause?) :=
    match fileForm url with
    | .ok place => (place, none)
    | .error e => (url, some e)
  match place.toFilePath? with
  | some path => .ok path
  | none => .error ⟨url, cause?⟩

end Location

end WorkspaceSession
