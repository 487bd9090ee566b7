/-
URLs as values.

A URL is its serialized text. Two URLs are the same exactly if their texts are, they are ordered by
their texts, and every part is read off the text: the scheme before the first colon, an authority
only after `//`, and the path up to a query or fragment. A URL without an authority whose path
starts with two slashes is written with `/.` in front of the path, and reading takes that away
again; without it the path would be taken for an authority.
-/
import WorkspaceSession.Text.Split
import WorkspaceSession.Text.Utf8

set_option autoImplicit false

namespace WorkspaceSession

/-- An absolute URL, by its serialized text. -/
structure Url where
  /-- The serialized form. -/
  text : String
  deriving DecidableEq, Repr

namespace Url

/-! ## Why a text is no URL -/

/-- The reasons for which a text is no absolute URL. -/
inductive ParseError where
  /-- The text has no scheme. -/
  | noScheme
  /-- The host is missing where one has to be. -/
  | emptyHost
  /-- The port is no number below 65536. -/
  | invalidPort
  /-- The host ends in a number but is no IPv4 address. -/
  | invalidIpv4
  /-- The host starts with a bracket but is no IPv6 address. -/
  | invalidIpv6
  /-- The host holds a character that no host may hold. -/
  | invalidHostCharacter
  /-- The host is no domain name. -/
  | invalidDomain
  deriving DecidableEq, Repr

/-- The wording of a parse error. -/
def ParseError.message : ParseError → String
  | .noScheme => "relative URL without a base"
  | .emptyHost => "empty host"
  | .invalidPort => "invalid port number"
  | .invalidIpv4 => "invalid IPv4 address"
  | .invalidIpv6 => "invalid IPv6 address"
  | .invalidHostCharacter => "invalid domain character"
  | .invalidDomain => "invalid international domain name"

/-! ## Parts -/

/-- The parts of a serialized URL that name a place: scheme, authority if there is one, path. -/
structure Parts where
  /-- What precedes the first colon. -/
  scheme : List Char
  /-- What stands between `//` and the path. -/
  authority? : Option (List Char)
  /-- The path, without query and fragment. -/
  path : List Char
  deriving DecidableEq, Repr

/-- Whether a character ends the authority of a URL. -/
def endsAuthority (c : Char) : Bool :=
  c = '/' || c = '?' || c = '#'

/-- Whether a character ends the path of a URL. -/
def endsPath (c : Char) : Bool :=
  c = '?' || c = '#'

/-- The part of a text up to a query or fragment. -/
def untilQuery (cs : List Char) : List Char :=
  cs.takeWhile fun c => !endsPath c

/-- Reads the parts off a serialized URL. -/
def Parts.ofText (text : List Char) : Parts :=
  let scheme := text.takeWhile (· ≠ ':')
  match text.drop (scheme.length + 1) with
  | '/' :: '/' :: rest =>
    let authority := rest.takeWhile fun c => !endsAuthority c
    ⟨scheme, some authority, untilQuery (rest.drop authority.length)⟩
  | '/' :: '.' :: '/' :: '/' :: rest => ⟨scheme, none, untilQuery ('/' :: '/' :: rest)⟩
  | rest => ⟨scheme, none, untilQuery rest⟩

/-- The parts of a URL. -/
def parts (url : Url) : Parts :=
  Parts.ofText url.text.toList

/-- The scheme of a URL. -/
def scheme (url : Url) : List Char :=
  url.parts.scheme

/-- The path of a URL. -/
def path (url : Url) : List Char :=
  url.parts.path

/-- The host inside an authority: what follows the user information and precedes the port. -/
def hostOfAuthority (authority : List Char) : List Char :=
  let place :=
    match Text.splitAtLast? (· = '@') authority with
    | some (_, place) => place
    | none => authority
  match place with
  | '[' :: rest => '[' :: (rest.takeWhile (· ≠ ']') ++ [']'])
  | place => place.takeWhile (· ≠ ':')

/-- The host of a URL; empty if it has none. -/
def host (url : Url) : List Char :=
  match url.parts.authority? with
  | some authority => hostOfAuthority authority
  | none => []

end Url

end WorkspaceSession
