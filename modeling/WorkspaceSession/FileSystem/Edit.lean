/-
Changing a file system.

Files and directories come into being with the directories above them; links on the way are
followed, also the one at the end of a file's path. A change that the system would refuse leaves
the file system as it is.
-/
import WorkspaceSession.FileSystem.Lookup

set_option autoImplicit false

namespace WorkspaceSession.FileSystem

/-- The place at which following a path starts. -/
def startOf (fs : FileSystem) (path : Path) : Option Place :=
  if path.isAbsolute then some []
  else if fs.workingAlive then some fs.workingPlace
  else none

/-- Makes the directories named by segments below a place, and gives the place of the last one. -/
def ensureDirectories (fs : FileSystem) (place : Place) :
    List Bytes → Option (FileSystem × Place)
  | [] => some (fs, place)
  | segment :: rest =>
    if segment = [Path.dot] then ensureDirectories fs place rest
    else if segment = [Path.dot, Path.dot] then ensureDirectories fs place.dropLast rest
    else
      let next := place ++ [segment]
      match fs.node? next with
      | none => ensureDirectories (fs.put next .directory) next rest
      | some .directory => ensureDirectories fs next rest
      | some (.file _) => none
      | some (.link _) =>
        match follow fs true (followBudget fs [segment]) maxLinks place [segment] with
        | .ok real =>
          if fs.node? real = some .directory then ensureDirectories fs real rest else none
        | .error _ => none

/-- Makes a directory and those above it. -/
def makeDirectory (fs : FileSystem) (path : Path) : FileSystem :=
  match (fs.startOf path).bind fun start => ensureDirectories fs start (segments path) with
  | some (changed, _) => changed
  | none => fs

/-- The directory that holds the last name of a path, made if need be, and that name. -/
def ensureParent (fs : FileSystem) (path : Path) : Option (FileSystem × Place × Bytes) :=
  let steps := segments path
  match fs.startOf path, steps.getLast? with
  | some start, some name =>
    (ensureDirectories fs start steps.dropLast).map fun (changed, place) => (changed, place, name)
  | _, _ => none

/-- Writes a file into a directory. A link of that name is followed; `links` bounds how often. -/
def writeInto (fs : FileSystem) (content : Bytes) : Nat → Place → Bytes → FileSystem
  | 0, _, _ => fs
  | links + 1, place, name =>
    match fs.node? (place ++ [name]) with
    | some .directory => fs
    | some (.link target) =>
      let steps := segments target
      let start := if target.isAbsolute then [] else place
      let directory := follow fs true (followBudget fs steps) maxLinks start steps.dropLast
      match directory, steps.getLast? with
      | .ok directory, some last => writeInto fs content links directory last
      | _, _ => fs
    | _ => fs.put (place ++ [name]) (.file content)

/-- Writes a file, over the one that stood there. -/
def writeFile (fs : FileSystem) (path : Path) (content : Bytes) : FileSystem :=
  match fs.ensureParent path with
  | some (changed, place, name) => changed.writeInto content (maxLinks + 1) place name
  | none => fs

/-- Makes a symbolic link where nothing stands. -/
def makeLink (fs : FileSystem) (path target : Path) : FileSystem :=
  match fs.ensureParent path with
  | some (changed, place, name) =>
    if (changed.node? (place ++ [name])).isSome then changed
    else changed.put (place ++ [name]) (.link target)
  | none => fs

/-- Removes what a path names, with everything below it; a link at its end is removed itself. -/
def remove (fs : FileSystem) (path : Path) : FileSystem :=
  match fs.lookup false path with
  | .ok (.place place) => fs.erase place
  | _ => fs

/-- Makes the working directory the one that a path leads to. -/
def enter (fs : FileSystem) (path : Path) : FileSystem :=
  match fs.lookup true path with
  | .ok (.place place) => { fs with workingPlace := place, workingAlive := true }
  | _ => fs

/-- Makes `count` directories of one name, each inside the one before, below a directory. No path
is followed to the lower ones, so they may lie deeper than a path can say. -/
def makeNested (fs : FileSystem) (path : Path) (name : Bytes) (count : Nat) : FileSystem :=
  match fs.lookup true path with
  | .ok (.place place) =>
    (List.range count).foldl
      (fun fs i => fs.put (place ++ List.replicate (i + 1) name) .directory) fs
  | _ => fs

end WorkspaceSession.FileSystem
