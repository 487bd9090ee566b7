/-
URLs of files.

A path becomes a URL by writing each of its components behind a slash, with everything escaped that
would not read back as that component. Components are not interpreted: a `..` of the path stands in
the URL as it is, although reading such a text as a URL would resolve it.

A URL becomes a path by decoding the escapes of its path, so an escaped slash is a slash of the
path. It must not name a host other than the local one. The scheme does not matter. A path that
ends in a letter and a colon or bar gets a slash behind it.
-/
import WorkspaceSession.Path.Basic
import WorkspaceSession.Url.Percent
import WorkspaceSession.Url.Basic

set_option autoImplicit false

namespace WorkspaceSession.Url

/-- The bytes of a component as a segment. -/
def segmentOfComponent : Path.Component → List Char
  | .root => []
  | .current => ['.']
  | .parent => ['.', '.']
  | .name bytes => Percent.encode Percent.segment bytes

/-- The path of the URL that names a file. -/
def filePath (path : Path) : List Char :=
  match path.components.drop 1 with
  | [] => ['/']
  | components => components.flatMap fun component => '/' :: segmentOfComponent component

/-- The `file` URL of a path; relative paths have none. -/
def ofFilePath? (path : Path) : Option Url :=
  if path.isAbsolute then some ⟨String.ofList ("file://".toList ++ filePath path)⟩ else none

/-- Whether bytes end like a drive: a letter and a colon or bar behind something else. -/
def endsLikeDrive (bytes : Bytes) : Bool :=
  match bytes.reverse with
  | mark :: letter :: _ :: _ =>
    (mark = 0x3A || mark = 0x7C) &&
      ((0x41 ≤ letter && letter ≤ 0x5A) || (0x61 ≤ letter && letter ≤ 0x7A))
  | _ => false

/-- The path that a URL names on this machine. -/
def toFilePath? (url : Url) : Option Path :=
  if url.path.head? = some '/' ∧ (url.host = [] ∨ url.host = "localhost".toList) then
    let bytes := Percent.decode (Text.Utf8.encode url.path)
    some ⟨if endsLikeDrive bytes then bytes ++ [Path.separator] else bytes⟩
  else none

end WorkspaceSession.Url
