/-
Following paths.

A path is followed segment by segment from the root or from the working directory. Empty segments
count for nothing except at the end, where a slash demands a directory just as `/.` does. A link in
the middle is always followed; one at the end only if asked. At most forty links are followed on
one way, a name has at most 255 bytes and a path at most 4095, and every refusal is the one for the
first segment that cannot be passed.
-/
import WorkspaceSession.FileSystem.Basic

set_option autoImplicit false

namespace WorkspaceSession.FileSystem

/-- The longest path that the system follows, in bytes. -/
def maxPathLength : Nat := 4095

/-- The longest name of an entry, in bytes. -/
def maxNameLength : Nat := 255

/-- The number of links that are followed on one way. -/
def maxLinks : Nat := 40

/-- The segments of a path as they are followed; a slash at the end is a last segment `.`. -/
def segments (path : Path) : List Bytes :=
  let parts := Text.splitWhere (· = Path.separator) path.bytes
  let named := parts.filter (· ≠ [])
  if parts.getLast? = some [] then named ++ [[Path.dot]] else named

/-- Where a path leads: to a place, or into the removed working directory itself. -/
inductive Target where
  /-- A place at which something stands. -/
  | place (place : Place)
  /-- The working directory after its removal. -/
  | removedDirectory
  deriving DecidableEq, Repr

/-- Follows segments from a directory. `links` is the number of links that may still be followed;
`budget` bounds the number of steps. -/
def follow (fs : FileSystem) (followLast : Bool) :
    Nat → Nat → Place → List Bytes → Except OsError Place
  | _, _, place, [] => .ok place
  | 0, _, _, _ :: _ => .error .tooManyLinks
  | budget + 1, links, place, segment :: rest =>
    if segment = [Path.dot] then follow fs followLast budget links place rest
    else if segment = [Path.dot, Path.dot] then
      follow fs followLast budget links place.dropLast rest
    else if maxNameLength < segment.length then .error .nameTooLong
    else
      let next := place ++ [segment]
      match fs.node? next with
      | none => .error .notFound
      | some .directory => follow fs followLast budget links next rest
      | some (.file _) => if rest = [] then .ok next else .error .notDirectory
      | some (.link target) =>
        if rest = [] ∧ !followLast then .ok next
        else
          match links with
          | 0 => .error .tooManyLinks
          | links + 1 =>
            -- The target is read from the directory that holds the link.
            if target.bytes = [] then .error .notFound
            else
              follow fs followLast budget links (if target.isAbsolute then [] else place)
                (segments target ++ rest)

/-- A number of steps that suffices for a path: one for each of its segments, and for each link
that may be followed one for each segment of the longest link. -/
def followBudget (fs : FileSystem) (path : List Bytes) : Nat :=
  let longest := fs.nodes.foldl
    (fun n (entry : Place × Node) =>
      match entry.2 with
      | .link target => max n (segments target).length
      | _ => n)
    0
  path.length + (maxLinks + 1) * (longest + 1)

/-- Follows a path. -/
def lookup (fs : FileSystem) (followLast : Bool) (path : Path) : Except OsError Target :=
  if path.bytes.contains 0 then .error .nulInName
  else if path.bytes = [] then .error .notFound
  else if maxPathLength < path.bytes.length then .error .nameTooLong
  else
    let steps := segments path
    let go (start : Place) (steps : List Bytes) : Except OsError Target :=
      (follow fs followLast (followBudget fs steps) maxLinks start steps).map .place
    if path.isAbsolute then go [] steps
    else if fs.workingAlive then go fs.workingPlace steps
    else
      -- A removed directory still is one, and still knows the one above it, but is empty.
      match steps.dropWhile (· = [Path.dot]) with
      | [] => .ok .removedDirectory
      | segment :: rest =>
        if segment = [Path.dot, Path.dot] ∧ fs.node? fs.workingPlace.dropLast = some .directory then
          go fs.workingPlace.dropLast rest
        else .error .notFound

/-! ## The disk -/

/-- The path of a place. -/
def pathOf (place : Place) : Path :=
  if place = [] then ⟨[Path.separator]⟩
  else ⟨place.flatMap fun name => Path.separator :: name⟩

/-- The working directory as a path; none after its removal. -/
def workingDirectory (fs : FileSystem) : Except OsError Path :=
  if fs.workingAlive then .ok (pathOf fs.workingPlace) else .error .notFound

/-- What a path leads to. -/
def kindOf (fs : FileSystem) (followLast : Bool) (path : Path) : Except OsError NodeKind := do
  match ← fs.lookup followLast path with
  | .removedDirectory => return .directory
  | .place place =>
    match fs.node? place with
    | some node => return node.kind
    | none => throw .notFound

/-- The entries of the directory that a path leads to. -/
def entries (fs : FileSystem) (path : Path) : Except OsError (List DirEntry) := do
  match ← fs.lookup true path with
  | .removedDirectory => return []
  | .place place =>
    match fs.node? place with
    | some .directory => return fs.entriesAt place
    | some _ => throw .notDirectory
    | none => throw .notFound

/-- The content of the file that a path leads to. -/
def read (fs : FileSystem) (path : Path) : Except OsError Bytes := do
  match ← fs.lookup true path with
  | .removedDirectory => throw .isDirectory
  | .place place =>
    match fs.node? place with
    | some (.file content) => return content
    | some .directory => throw .isDirectory
    | _ => throw .notFound

/-- The disk with this file system, in which nothing happens. -/
def atRest {m : Type → Type} [Monad m] (fs : FileSystem) : Disk m where
  workingDirectory := pure fs.workingDirectory
  kind? := fun path => pure (fs.kindOf true path).toOption
  ownKind := fun path => pure (fs.kindOf false path)
  entries := fun path => pure (fs.entries path)
  read := fun path => pure (fs.read path)

/-- The disk with the file system in a state, which its questions do not change. -/
def disk {σ : Type} (get : σ → FileSystem) : Disk (StateM σ) where
  workingDirectory := fun s => ((get s).workingDirectory, s)
  kind? := fun path s => (((get s).kindOf true path).toOption, s)
  ownKind := fun path s => ((get s).kindOf false path, s)
  entries := fun path s => ((get s).entries path, s)
  read := fun path s => ((get s).read path, s)

end WorkspaceSession.FileSystem
