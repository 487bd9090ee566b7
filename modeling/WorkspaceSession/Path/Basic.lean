/-
Paths as they are written.

A path is the bytes that name it; nothing is normalized when it is built, joined or shown, because
reports repeat the spelling that was given. What a path means is read off its components. Empty
segments and `.` segments mean nothing, except a `.` at the very start of a relative path, which
stays visible; `..` is kept. Two spellings with the same components are the same path.
-/
import WorkspaceSession.Text.Utf8
import WorkspaceSession.Text.Split

set_option autoImplicit false

namespace WorkspaceSession

/-- A path, byte for byte as written. -/
structure Path where
  /-- The bytes between the start and the end of the path. -/
  bytes : Bytes
  deriving DecidableEq, Repr

namespace Path

/-- The byte between segments. -/
def separator : UInt8 := 0x2F

/-- The byte before an extension. -/
def dot : UInt8 := 0x2E

/-- A path spelled by a text. -/
def ofString (s : String) : Path :=
  ⟨Bytes.ofString s⟩

/-- A path as text for people. -/
def display (path : Path) : String :=
  path.bytes.display

/-! ## Components -/

/-- One step of a path. -/
inductive Component where
  /-- The root of the file system. -/
  | root
  /-- The directory itself. -/
  | current
  /-- The directory above. -/
  | parent
  /-- An entry of the directory. -/
  | name (bytes : Bytes)
  deriving DecidableEq, Repr

/-- What a segment means inside a path; empty segments and `.` mean nothing. -/
def Component.ofSegment (segment : Bytes) : Option Component :=
  if segment = [] ∨ segment = [dot] then none
  else if segment = [dot, dot] then some .parent
  else some (.name segment)

/-- Whether a path starts at the root. -/
def isAbsolute (path : Path) : Bool :=
  path.bytes.head? = some separator

/-- The components of a path. -/
def components (path : Path) : List Component :=
  let segments := Text.splitWhere (· = separator) path.bytes
  let named := segments.filterMap Component.ofSegment
  if path.isAbsolute then .root :: named
  else if segments.head? = some [dot] then .current :: named
  else named

/-- Whether two paths are the same, whatever their spelling. -/
def same (p q : Path) : Bool :=
  p.components = q.components

/-! ## Names -/

/-- The last component, if it is the name of an entry. -/
def fileName? (path : Path) : Option Bytes :=
  match path.components.getLast? with
  | some (.name n) => some n
  | _ => none

/-- The part of a name after its last dot; a dot at the start of a name begins no extension. -/
def extensionOfName (name : Bytes) : Option Bytes :=
  match Text.splitAtLast? (· = dot) name with
  | some (_ :: _, extension) => some extension
  | _ => none

/-- The extension of a path, without its dot. -/
def extension? (path : Path) : Option Bytes :=
  path.fileName?.bind extensionOfName

/-- Whether a path has exactly this extension. -/
def hasExtension (path : Path) (extension : String) : Bool :=
  path.extension? = some (Bytes.ofString extension)

/-! ## Joining -/

/-- A path read from inside another one. An absolute path stands for itself. -/
def join (base path : Path) : Path :=
  if path.isAbsolute then path
  else if base.bytes = [] ∨ base.bytes.getLast? = some separator then
    ⟨base.bytes ++ path.bytes⟩
  else ⟨base.bytes ++ separator :: path.bytes⟩

end Path

end WorkspaceSession
