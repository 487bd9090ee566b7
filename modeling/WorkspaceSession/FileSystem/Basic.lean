/-
A file system as a value.

Every node lies at a place: the names on the way from the root, with no link among them. The nodes
are a list from places to what stands there, and the order of the list is the order in which a
directory shows its entries. The root is always a directory. The working directory is a place too;
once it has been removed it stays removed, even if a new directory comes to stand at its place.
-/
import WorkspaceSession.Disk

set_option autoImplicit false

namespace WorkspaceSession

/-- A place in the file system: the names from the root, none of them a link. -/
abbrev Place := List Bytes

/-- What stands at a place. -/
inductive Node where
  /-- A directory. -/
  | directory
  /-- A regular file with its content. -/
  | file (content : Bytes)
  /-- A symbolic link with the path that it stands for. -/
  | link (target : Path)
  deriving DecidableEq, Repr

/-- The kind of a node. -/
def Node.kind : Node → NodeKind
  | .directory => .directory
  | .file _ => .file
  | .link _ => .link

/-- The content of a disk, and the directory from which relative paths are read. -/
structure FileSystem where
  /-- What stands where, except the root. -/
  nodes : List (Place × Node)
  /-- The working directory. -/
  workingPlace : Place
  /-- Whether the working directory has not been removed. -/
  workingAlive : Bool
  deriving Repr

namespace FileSystem

/-- An empty disk whose working directory is the root. -/
def empty : FileSystem :=
  ⟨[], [], true⟩

/-- What stands at a place. -/
def node? (fs : FileSystem) (place : Place) : Option Node :=
  if place = [] then some .directory
  else (fs.nodes.find? fun entry => entry.1 = place).map Prod.snd

/-- The entries of the directory at a place. -/
def entriesAt (fs : FileSystem) (place : Place) : List DirEntry :=
  fs.nodes.filterMap fun (p, node) =>
    match p.getLast? with
    | some name => if p.dropLast = place then some ⟨name, node.kind⟩ else none
    | none => none

/-- Puts a node at a place, over what stood there. -/
def put (fs : FileSystem) (place : Place) (node : Node) : FileSystem :=
  if fs.nodes.any fun entry => entry.1 = place then
    { fs with nodes := fs.nodes.map fun entry => if entry.1 = place then (place, node) else entry }
  else { fs with nodes := fs.nodes ++ [(place, node)] }

/-- Takes away what stands at a place, with everything below it. -/
def erase (fs : FileSystem) (place : Place) : FileSystem where
  nodes := fs.nodes.filter fun entry => !place.isPrefixOf entry.1
  workingPlace := fs.workingPlace
  workingAlive := fs.workingAlive && !place.isPrefixOf fs.workingPlace

end FileSystem

end WorkspaceSession
