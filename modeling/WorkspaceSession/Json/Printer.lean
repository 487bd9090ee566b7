/-
Writing JSON.

Texts are escaped where JSON demands it and nowhere else. The compact form has no white space. The
indented form has two blanks for each level and one member or item on a line; an empty sequence or
object stays on one line.
-/
import WorkspaceSession.Json.Basic

set_option autoImplicit false

namespace WorkspaceSession.Json

/-- A character inside a JSON text. -/
def escapeChar (c : Char) : List Char :=
  if c = '"' then ['\\', '"']
  else if c = '\\' then ['\\', '\\']
  else if c = '\n' then ['\\', 'n']
  else if c = '\r' then ['\\', 'r']
  else if c = '\t' then ['\\', 't']
  else if c = '\x08' then ['\\', 'b']
  else if c = '\x0C' then ['\\', 'f']
  else if c.toNat < 0x20 then
    let digits := Nat.toDigits 16 c.toNat
    ['\\', 'u'] ++ List.replicate (4 - digits.length) '0' ++ digits
  else [c]

/-- A text between JSON quotes. -/
def quote (s : String) : String :=
  String.ofList ('"' :: s.toList.flatMap escapeChar ++ ['"'])

/-- A number, truth value, text or `null`. -/
def scalar : Json → String
  | .bool b => if b then "true" else "false"
  | .integer n => toString n
  | .real bits => realText bits
  | .string s => quote s
  | _ => "null"

mutual

/-- The compact form of a value. -/
def compact : Json → String
  | .array items => "[" ++ compactItems items ++ "]"
  | .object members => "\x7b" ++ compactMembers members ++ "\x7d"
  | value => scalar value

/-- Items with commas between them. -/
def compactItems : List Json → String
  | [] => ""
  | [item] => compact item
  | item :: rest => compact item ++ "," ++ compactItems rest

/-- Members with commas between them. -/
def compactMembers : List (String × Json) → String
  | [] => ""
  | [(name, value)] => quote name ++ ":" ++ compact value
  | (name, value) :: rest => quote name ++ ":" ++ compact value ++ "," ++ compactMembers rest

end

/-- The start of a line at a level. -/
def indentation (level : Nat) : String :=
  "\n" ++ String.ofList (List.replicate (2 * level) ' ')

mutual

/-- The indented form of a value that stands at a level. -/
def indented (level : Nat) : Json → String
  | .array [] => "[]"
  | .object [] => "\x7b\x7d"
  | .array (item :: rest) =>
    "[" ++ indentedItems (level + 1) (item :: rest) ++ indentation level ++ "]"
  | .object (entry :: rest) =>
    "\x7b" ++ indentedMembers (level + 1) (entry :: rest) ++ indentation level ++ "\x7d"
  | value => scalar value

/-- Items at a level, each on a line. -/
def indentedItems (level : Nat) : List Json → String
  | [] => ""
  | [item] => indentation level ++ indented level item
  | item :: rest => indentation level ++ indented level item ++ "," ++ indentedItems level rest

/-- Members at a level, each on a line. -/
def indentedMembers (level : Nat) : List (String × Json) → String
  | [] => ""
  | [(name, value)] => indentation level ++ quote name ++ ": " ++ indented level value
  | (name, value) :: rest =>
    indentation level ++ quote name ++ ": " ++ indented level value ++ ","
      ++ indentedMembers level rest

end

/-- The indented form of a value. -/
def pretty (value : Json) : String :=
  indented 0 value

end WorkspaceSession.Json
