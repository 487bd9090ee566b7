/-
Domain names in ASCII.

A domain name may be written in any script, and a URL holds its ASCII form. Which characters a name
may have, which of them are the same and which are left out is a matter of the tables of the Unicode
standard, which are no part of this library: the mapping of names is a parameter of the reading of
URLs (`DomainNames`). Results about URLs rely on two facts about it alone, that the labels of a name
are mapped one by one, and that lower-case letters are kept (`DomainNames.Lawful`).

The mapping that is used when none is given gets by without tables. It knows the characters whose
mapping is arithmetic: ASCII, the fullwidth forms of ASCII, and the full stops of East Asian texts.
Names with any other character are refused, also where Punycode encodes it.
-/
import WorkspaceSession.Text.Split

set_option autoImplicit false

namespace WorkspaceSession.Url

/-- A mapping of domain names to ASCII. -/
class DomainNames where
  /-- The ASCII form of a name, if it has one. -/
  toAscii? : List Char → Option (List Char)

namespace DomainNames

/-- What is relied on about a mapping of domain names. -/
structure Lawful (names : DomainNames) : Prop where
  /-- Lower-case letters are kept. -/
  letters : ∀ name : List Char, (∀ c ∈ name, c.isLower = true) → names.toAscii? name = some name
  /-- The labels of a name are mapped one by one, so a full stop divides the result as it divides
  the name. -/
  labels : ∀ front back name : List Char, names.toAscii? (front ++ '.' :: back) = some name →
    ∃ front' back', names.toAscii? front = some front' ∧ names.toAscii? back = some back'
      ∧ name = front' ++ '.' :: back'

/-! ## Without tables -/

/-- The ASCII character that a character of a name is mapped to, if that takes no table. -/
def narrow? (c : Char) : Option Char :=
  if c.toNat < 0x80 then some c.toLower
  else if 0xFF01 ≤ c.toNat ∧ c.toNat ≤ 0xFF5E then some (Char.ofNat (c.toNat - 0xFEE0)).toLower
  else if c.toNat = 0x3002 ∨ c.toNat = 0xFF61 then some '.'
  else none

/-- Whether a label is in Punycode. -/
def isPunycode (label : List Char) : Bool :=
  "xn--".toList.isPrefixOf label

/-- The mapping of the names that take no table. -/
instance withoutTables : DomainNames where
  toAscii? name :=
    (name.mapM narrow?).filter fun mapped =>
      !(Text.splitWhere (· = '.') mapped).any isPunycode

end DomainNames

end WorkspaceSession.Url
