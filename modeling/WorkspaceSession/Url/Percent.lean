/-
Percent-encoding.

A URL is written in ASCII. A byte that a part of a URL cannot hold is written as `%` and two
upper-case hexadecimal digits; which ASCII characters that concerns depends on the part, and bytes
beyond ASCII are always written so. Reading takes hexadecimal digits of either case, and leaves a
`%` alone that is not followed by two of them.
-/
import WorkspaceSession.Text.Utf8

set_option autoImplicit false

namespace WorkspaceSession.Url.Percent

/-! ## The parts of a URL and what they cannot hold -/

/-- The ASCII characters that a part of a URL cannot hold literally. -/
abbrev Reserved := Char → Bool

/-- No part holds control characters. -/
def controls : Reserved := fun c =>
  c.toNat < 0x20 || c.toNat = 0x7F

/-- Reserved in a fragment. -/
def fragment : Reserved := fun c =>
  controls c || [' ', '"', '<', '>', '\x60'].contains c

/-- Reserved in a query. -/
def query : Reserved := fun c =>
  controls c || [' ', '"', '#', '<', '>'].contains c

/-- Reserved in the query of a special scheme. -/
def specialQuery : Reserved := fun c =>
  query c || c = '\''

/-- Reserved in a path. -/
def path : Reserved := fun c =>
  fragment c || ['#', '?', '\x7b', '\x7d'].contains c

/-- Reserved in a user name or password. -/
def userinfo : Reserved := fun c =>
  path c || ['/', ':', ';', '=', '@', '[', '\\', ']', '^', '|'].contains c

/-- Reserved in one segment of a file's path, so that the segment reads back as it was. -/
def segment : Reserved := fun c =>
  path c || ['/', '%', '\\'].contains c

/-! ## Writing -/

/-- An upper-case hexadecimal digit. -/
def hexDigit (n : Nat) : Char :=
  if n < 10 then Char.ofNat (0x30 + n) else Char.ofNat (0x37 + n)

/-- One byte as it stands in a part of a URL. -/
def encodeByte (reserved : Reserved) (b : UInt8) : List Char :=
  let n := b.toNat
  if n < 0x80 && !reserved (Char.ofNat n) then [Char.ofNat n]
  else ['%', hexDigit (n / 16), hexDigit (n % 16)]

/-- Bytes as they stand in a part of a URL. -/
def encode (reserved : Reserved) (bytes : Bytes) : List Char :=
  bytes.flatMap (encodeByte reserved)

/-- Characters as they stand in a part of a URL. -/
def encodeText (reserved : Reserved) (cs : List Char) : List Char :=
  encode reserved (Text.Utf8.encode cs)

/-! ## Reading -/

/-- The value of a hexadecimal digit. -/
def hexValue? (b : UInt8) : Option Nat :=
  let n := b.toNat
  if 0x30 ≤ n ∧ n ≤ 0x39 then some (n - 0x30)
  else if 0x41 ≤ n ∧ n ≤ 0x46 then some (n - 0x37)
  else if 0x61 ≤ n ∧ n ≤ 0x66 then some (n - 0x57)
  else none

/-- The byte that three bytes stand for, if they are a percent sign and two digits. -/
def escape? (sign high low : UInt8) : Option UInt8 :=
  if sign = 0x25 then
    match hexValue? high, hexValue? low with
    | some h, some l => some (h * 16 + l).toUInt8
    | _, _ => none
  else none

/-- Replaces every escape by the byte that it stands for. -/
def decode : Bytes → Bytes
  | a :: b :: c :: rest =>
    match escape? a b c with
    | some byte => byte :: decode rest
    | none => a :: decode (b :: c :: rest)
  | bytes => bytes

end WorkspaceSession.Url.Percent
