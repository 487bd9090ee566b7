/-
The live buffer of one open document.

An editor sends its edits in batches. An edit with a range replaces the characters between two
positions, both found in the text as it stands before that edit; an edit without one replaces the
whole text. No edit can fail: positions outside the text are moved into it, and a range whose end
lies before its start inserts at the start.
-/
import WorkspaceSession.Text.Line

set_option autoImplicit false

namespace WorkspaceSession

/-- The part of a text that an edit replaces. -/
structure Range where
  /-- Where the replaced part begins. -/
  start : Text.Position
  /-- Where it ends. -/
  stop : Text.Position
  deriving DecidableEq, Repr

/-- One edit of an editor. -/
structure Edit where
  /-- The replaced part; the whole text if there is none. -/
  range? : Option Range
  /-- What comes in its place. -/
  text : String
  deriving DecidableEq, Repr

/-- Replaces the characters from `start` up to `stop`, or inserts at `start` if `stop` lies before
it. -/
def Text.splice (text : List Char) (start stop : Nat) (replacement : List Char) : List Char :=
  text.take start ++ replacement ++ text.drop (max start stop)

/-- The text after one edit. -/
def Edit.applyTo (edit : Edit) (text : List Char) : List Char :=
  match edit.range? with
  | none => edit.text.toList
  | some range =>
    Text.splice text (Text.offsetOf text range.start) (Text.offsetOf text range.stop)
      edit.text.toList

/-- An open document: its text and the version that the editor gave with the last batch. -/
structure Document where
  /-- The text as the editor shows it. -/
  text : String
  /-- The editor's version number. -/
  version : Int
  deriving DecidableEq, Repr

namespace Document

/-- Applies a batch of edits in order and takes over its version. -/
def applyEdits (document : Document) (edits : List Edit) (version : Int) : Document where
  text := String.ofList (edits.foldl (fun text edit => edit.applyTo text) document.text.toList)
  version := version

end Document

end WorkspaceSession
