/-
Lexical normal form.

`.` is dropped and `..` takes back the component before it, without asking the file system, so the
result says where a path leads only as far as no symbolic link is involved. A `..` that has nothing
to take back is kept; the next `..` then takes back that kept one. Containment of one path in
another compares the components of the two normal forms.
-/
import WorkspaceSession.Path.Basic

set_option autoImplicit false

namespace WorkspaceSession.Path

/-- Puts one more component on a stack whose top is the last component so far. -/
def pushComponent (stack : List Component) : Component → List Component
  | .current => stack
  | .parent =>
    -- A kept `..` is taken back like a name; nothing takes back the root.
    match stack with
    | .name _ :: below => below
    | .parent :: below => below
    | _ => .parent :: stack
  | component => component :: stack

/-- The components of the normal form. -/
def normalComponents (path : Path) : List Component :=
  (path.components.foldl pushComponent []).reverse

/-- The bytes of a component inside a path. -/
def Component.segment : Component → Bytes
  | .root => []
  | .current => [dot]
  | .parent => [dot, dot]
  | .name n => n

/-- Writes components as a path, one separator between two of them. -/
def ofComponents : List Component → Path
  | [.root] => ⟨[separator]⟩
  | components => ⟨List.intercalate [separator] (components.map Component.segment)⟩

/-- The normal form of a path. -/
def normalize (path : Path) : Path :=
  ofComponents path.normalComponents

/-- Whether a path lies in a directory, or is that directory, by their normal forms. -/
def liesIn (path directory : Path) : Bool :=
  directory.normalComponents.isPrefixOf path.normalComponents

end WorkspaceSession.Path
