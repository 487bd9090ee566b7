/-
Lines and UTF-16 columns of a text.

Editors address a text by line and by UTF-16 column. A line ends after LF, CR, CR LF taken as one,
VT, FF, U+0085, U+2028 or U+2029, and the text after the last terminator is a line of its own, so
a text always has one line more than it has terminators and the lines put together give the text
back. A column counts the units of the characters before it; a column inside a character of two
units belongs to the character's start, and a column past the line stays before the CR or LF that
ends it.
-/

set_option autoImplicit false

namespace WorkspaceSession.Text

/-! ## Lines -/

/-- Whether a character alone ends a line. -/
def isLineBreak (c : Char) : Bool :=
  c = '\n' || c = '\x0B' || c = '\x0C' || c = '\r' || c = '\u0085' || c = '\u2028' || c = '\u2029'

/-- The lines of a text, each with its terminator; only the last one has none. -/
def lines : List Char → List (List Char)
  | [] => [[]]
  | '\r' :: '\n' :: rest => ['\r', '\n'] :: lines rest
  | c :: rest =>
    if isLineBreak c then [c] :: lines rest
    else
      match lines rest with
      | [] => [[c]]
      | line :: more => (c :: line) :: more

/-- A line without the CR and LF characters at its end. -/
def stripLineEnd (line : List Char) : List Char :=
  (line.reverse.dropWhile fun c => c = '\n' || c = '\r').reverse

/-- The number of lines when only LF ends a line, the text after the last LF included. -/
def countLines (text : List Char) : Nat :=
  text.count '\n' + 1

/-! ## Columns -/

/-- The number of UTF-16 units of a character. -/
def units16 (c : Char) : Nat :=
  if c.toNat < 0x10000 then 1 else 2

/-- How many characters of a line lie wholly before a UTF-16 column. -/
def charsBefore : List Char → Nat → Nat
  | [], _ => 0
  | c :: rest, column =>
    if units16 c ≤ column then charsBefore rest (column - units16 c) + 1 else 0

/-! ## Positions -/

/-- A place in a text as an editor gives it. -/
structure Position where
  /-- Zero-based line. -/
  line : Nat
  /-- Zero-based column in UTF-16 units. -/
  column : Nat
  deriving DecidableEq, Repr

/-- The number of characters before a position. A line past the last means the end of the text. -/
def offsetOf (text : List Char) (position : Position) : Nat :=
  match (lines text)[position.line]? with
  | none => text.length
  | some line =>
    ((lines text).take position.line).flatten.length
      + charsBefore (stripLineEnd line) position.column

end WorkspaceSession.Text
