/-
UTF-8, as bytes in a list.

File names, file contents and percent-decoded URLs are bytes, and they are not always text. Two
readings of bytes are needed. The strict one gives the characters or nothing. The forgiving one
never fails: every maximal run of bytes that starts a character but does not finish it becomes one
U+FFFD, and so does every byte that cannot start a character.

Both are read off one scan. It walks the bytes once and remembers, inside a character, how many
bytes are still owed and in which range the next one has to lie. The ranges after E0, ED, F0 and
F4 are narrower than a plain continuation byte; they exclude overlong forms, surrogates and values
beyond U+10FFFF at the second byte already, so a refused byte always refuses the shortest possible
piece and is then read again as the start of something new.
-/

set_option autoImplicit false

namespace WorkspaceSession

/-- A sequence of octets. -/
abbrev Bytes := List UInt8

namespace Text.Utf8

/-! ## Encoding -/

/-- The UTF-8 form of one character. -/
def encodeChar (c : Char) : Bytes :=
  let n := c.toNat
  if n < 0x80 then [n.toUInt8]
  else if n < 0x800 then [(0xC0 + n / 0x40).toUInt8, (0x80 + n % 0x40).toUInt8]
  else if n < 0x10000 then
    [(0xE0 + n / 0x1000).toUInt8, (0x80 + n / 0x40 % 0x40).toUInt8, (0x80 + n % 0x40).toUInt8]
  else
    [(0xF0 + n / 0x40000).toUInt8, (0x80 + n / 0x1000 % 0x40).toUInt8,
      (0x80 + n / 0x40 % 0x40).toUInt8, (0x80 + n % 0x40).toUInt8]

/-- The UTF-8 form of a sequence of characters. -/
def encode (cs : List Char) : Bytes :=
  cs.flatMap encodeChar

/-! ## Scanning -/

/-- A character that has been started: how many bytes it still owes after the next one, the range
of the next one, and the value read so far. -/
structure Unfinished where
  /-- Bytes owed after the next one. -/
  owed : Nat
  /-- Least value of the next byte. -/
  low : UInt8
  /-- Greatest value of the next byte. -/
  high : UInt8
  /-- The bits read so far. -/
  value : Nat
  deriving Repr

/-- What a byte between two characters is: a whole character, the start of a longer one, or
nothing that UTF-8 allows there. -/
inductive Lead where
  /-- An ASCII character. -/
  | whole (c : Char)
  /-- The first byte of a longer character. -/
  | starts (p : Unfinished)
  /-- A byte that starts no character. -/
  | stray
  deriving Repr

/-- Classifies a byte between two characters. -/
def lead (b : UInt8) : Lead :=
  let n := b.toNat
  if n < 0x80 then .whole (Char.ofNat n)
  else if n < 0xC2 then .stray
  else if n < 0xE0 then .starts ⟨0, 0x80, 0xBF, n - 0xC0⟩
  else if n = 0xE0 then .starts ⟨1, 0xA0, 0xBF, 0⟩
  else if n = 0xED then .starts ⟨1, 0x80, 0x9F, 0xD⟩
  else if n < 0xF0 then .starts ⟨1, 0x80, 0xBF, n - 0xE0⟩
  else if n = 0xF0 then .starts ⟨2, 0x90, 0xBF, 0⟩
  else if n < 0xF4 then .starts ⟨2, 0x80, 0xBF, n - 0xF0⟩
  else if n = 0xF4 then .starts ⟨2, 0x80, 0x8F, 4⟩
  else .stray

/-- Splits bytes into characters and, as `none`, the pieces that are not UTF-8. The first argument
is the character that is being read, if the scan stands inside one. -/
def scan : Option Unfinished → Bytes → List (Option Char)
  | none, [] => []
  | some _, [] => [none]
  | none, b :: rest =>
    match lead b with
    | .whole c => some c :: scan none rest
    | .starts p => scan (some p) rest
    | .stray => none :: scan none rest
  | some p, b :: rest =>
    if p.low ≤ b ∧ b ≤ p.high then
      let value := p.value * 0x40 + (b.toNat - 0x80)
      match p.owed with
      | 0 => some (Char.ofNat value) :: scan none rest
      | owed + 1 => scan (some ⟨owed, 0x80, 0xBF, value⟩) rest
    else
      match lead b with
      | .whole c => none :: some c :: scan none rest
      | .starts q => none :: scan (some q) rest
      | .stray => none :: none :: scan none rest

/-! ## Decoding -/

/-- The characters of a byte sequence, each piece that is not UTF-8 replaced by U+FFFD. -/
def decodeLossy (bytes : Bytes) : List Char :=
  (scan none bytes).map (·.getD '\uFFFD')

/-- The characters of a byte sequence, if all of it is UTF-8. -/
def decode? (bytes : Bytes) : Option (List Char) :=
  (scan none bytes).mapM id

end Text.Utf8

/-- The bytes of a text. -/
def Bytes.ofString (s : String) : Bytes :=
  Text.Utf8.encode s.toList

/-- Bytes as text for people, with U+FFFD where they are not UTF-8. -/
def Bytes.display (bytes : Bytes) : String :=
  String.ofList (Text.Utf8.decodeLossy bytes)

end WorkspaceSession
