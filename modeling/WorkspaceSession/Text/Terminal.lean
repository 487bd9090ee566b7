/-
Text that does not steer a terminal.

A word that somebody typed may hold control characters and the sequences by which a program moves
the cursor or colours its output. A message that repeats the word leaves them out. What is left is
what a terminal would show, and the tabs and line ends.

A sequence starts with ESC, and the characters behind it decide which kind it is and where it ends.
Another ESC starts a new sequence, and CAN and SUB end any. Tabs and line ends are shown even inside
a sequence, unless it is a string. They interrupt it: what follows is shown as well, and a control
that is not shown takes the sequence up again.
-/
import WorkspaceSession.Text.Utf8

set_option autoImplicit false

namespace WorkspaceSession.Text.Terminal

/-! ## Where a reader stands -/

/-- What kind of sequence the next character belongs to. -/
inductive Place where
  /-- No sequence. -/
  | text
  /-- Right behind ESC. -/
  | escape
  /-- Behind ESC and the marks that designate a character set or the like. -/
  | designation
  /-- In a control sequence, which ends with a letter or a mark above `?`. -/
  | control
  /-- In an operating system command, which ends with BEL. -/
  | command
  /-- At the start of a device control. -/
  | device
  /-- In the parameters of a device control. -/
  | deviceParameter
  /-- In the marks behind the parameters of a device control. -/
  | deviceMark
  /-- In a string, which ends with the byte of the string terminator. -/
  | string
  deriving DecidableEq, Repr

/-- Whether a tab or line end is shown at a place. -/
def Place.showsBlanks : Place → Bool
  | .text | .escape | .designation | .control => true
  | _ => false

/-- A place, and whether the sequence there is interrupted. -/
structure Reader where
  /-- The place. -/
  place : Place
  /-- Whether characters are shown although the place is in a sequence. -/
  interrupted : Bool
  deriving DecidableEq, Repr

/-! ## One character -/

/-- Whether a code point lies between two others, which count. -/
def lies (low high : Nat) (c : Char) : Bool :=
  low ≤ c.toNat && c.toNat ≤ high

/-- Whether a character is a tab, a line end or a form feed. -/
def isBlankControl (c : Char) : Bool :=
  c = '\t' || c = '\n' || c = '\x0c' || c = '\r'

/-- Whether a character is shown outside sequences. -/
def isShown (c : Char) : Bool :=
  isBlankControl c || (0x20 ≤ c.toNat && c.toNat ≠ 0x7F)

/-- Where a character inside a sequence leads that neither starts nor cancels one. -/
def Place.next (place : Place) (c : Char) : Place :=
  match place with
  | .text => .text
  | .escape =>
    if lies 0x20 0x2F c then .designation
    else if c = '[' then .control
    else if c = ']' then .command
    else if c = 'P' then .device
    else if c = 'X' || c = '^' || c = '_' then .string
    else if lies 0x30 0x7E c then .text
    else .escape
  | .designation => if lies 0x30 0x7E c then .text else .designation
  | .control => if lies 0x40 0x7E c then .text else .control
  | .command => if c.toNat = 0x07 then .text else .command
  | .device =>
    if lies 0x20 0x2F c then .deviceMark
    else if lies 0x30 0x3F c then .deviceParameter
    else if lies 0x40 0x7E c then .string
    else .device
  | .deviceParameter =>
    if lies 0x20 0x2F c then .deviceMark
    else if lies 0x3C 0x7E c then .string
    else .deviceParameter
  | .deviceMark => if lies 0x30 0x7E c then .string else .deviceMark
  | .string => if (Utf8.encodeChar c).contains 0x9C then .text else .string

/-- The reader behind a character, and whether the character is shown. A character beyond ASCII that
is shown ends an interrupted sequence. -/
def Reader.step (reader : Reader) (c : Char) : Reader × Bool :=
  if c.toNat = 0x18 ∨ c.toNat = 0x1A then (⟨.text, false⟩, false)
  else if c.toNat = 0x1B then (⟨.escape, false⟩, false)
  else if reader.interrupted ∨ reader.place = .text then
    if isShown c then (if c.toNat < 0x80 then reader else ⟨.text, false⟩, true)
    else (⟨reader.place, false⟩, false)
  else if isBlankControl c ∧ reader.place.showsBlanks then (⟨reader.place, true⟩, true)
  else (⟨reader.place.next c, false⟩, false)

/-! ## Texts -/

/-- The characters of a text that are shown. -/
def Reader.shown (reader : Reader) : List Char → List Char
  | [] => []
  | c :: rest =>
    let (next, counts) := reader.step c
    if counts then c :: next.shown rest else next.shown rest

/-- A text without controls and sequences. -/
def printable (s : String) : String :=
  String.ofList (Reader.shown ⟨.text, false⟩ s.toList)

end WorkspaceSession.Text.Terminal
