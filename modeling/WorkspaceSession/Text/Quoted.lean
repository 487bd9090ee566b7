/-
Texts quoted in messages.

A quoted text stands between double quotes. Quotes and backslashes in it get a backslash, NUL, tab
and line ends have short escapes, and every other character that would not show is written by its
code point in braces.
-/
import WorkspaceSession.Text.Invisible

set_option autoImplicit false

namespace WorkspaceSession.Text.Quoted

/-- The escape of a character by its code point. -/
def codePoint (c : Char) : List Char :=
  ['\\', 'u', '\x7b'] ++ Nat.toDigits 16 c.toNat ++ ['\x7d']

/-- A character inside quotes. -/
def encodeChar (c : Char) : List Char :=
  if c = '"' then ['\\', '"']
  else if c = '\\' then ['\\', '\\']
  else if c = '\x00' then ['\\', '0']
  else if c = '\t' then ['\\', 't']
  else if c = '\n' then ['\\', 'n']
  else if c = '\r' then ['\\', 'r']
  else if isInvisible c then codePoint c
  else [c]

/-- A text between quotes. -/
def encode (s : String) : String :=
  String.ofList ('"' :: s.toList.flatMap encodeChar ++ ['"'])

end WorkspaceSession.Text.Quoted
