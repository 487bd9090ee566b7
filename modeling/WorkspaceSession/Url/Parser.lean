/-
Reading URLs.

The rules are those of the URL standard for a text without a base. Spaces and controls around the
text and breaks, which are tabs and line ends, inside it do not count, with one exception: behind a
drive letter at the start of the path of a file a break ends the segment. The scheme decides how the
rest is read: `file` knows drive letters and needs no host, the other special schemes need a host
and take a backslash for a slash, and every other scheme is kept much as it is written; without a
slash after the colon its path is not divided into segments at all.

The path is read segment by segment onto a stack. A `.` adds nothing, a `..` takes the segment
before it away unless that is a drive letter, and both may be written with escapes. The order of
the rules matters: segments are encoded before they are compared, and the drive letter rule of
`file` applies to the very first segment only. A host that is a domain name is written in ASCII, by the
mapping of domain names that is given.
-/
import WorkspaceSession.Url.Host

set_option autoImplicit false

namespace WorkspaceSession.Url

/-! ## Breaks -/

/-- Whether a character is a tab or a line end. -/
def isBreak (c : Char) : Bool :=
  c = '\t' || c = '\n' || c = '\r'

/-- A text without its breaks. -/
def withoutBreaks (cs : List Char) : List Char :=
  cs.filter fun c => !isBreak c

/-! ## Schemes -/

/-- How the rest of a URL is read. -/
inductive SchemeKind where
  /-- The scheme of files. -/
  | file
  /-- A special scheme other than `file`. -/
  | special
  /-- Any other scheme. -/
  | plain
  deriving DecidableEq, Repr

/-- The kind of a scheme. -/
def SchemeKind.of (scheme : List Char) : SchemeKind :=
  if scheme = "file".toList then .file
  else if ["http", "https", "ws", "wss", "ftp"].any fun s => scheme = s.toList then .special
  else .plain

/-- The port that a special scheme uses anyway. -/
def defaultPort? (scheme : List Char) : Option Nat :=
  if scheme = "http".toList ∨ scheme = "ws".toList then some 80
  else if scheme = "https".toList ∨ scheme = "wss".toList then some 443
  else if scheme = "ftp".toList then some 21
  else none

/-- Whether a character separates segments. -/
def isSlash (kind : SchemeKind) (c : Char) : Bool :=
  c = '/' || (c = '\\' && kind ≠ .plain)

/-- What follows the slash that a text begins with, if it begins with one; breaks before the slash
do not count. -/
def afterSlash? (kind : SchemeKind) (cs : List Char) : Option (List Char) :=
  match cs.dropWhile isBreak with
  | c :: rest => if isSlash kind c then some rest else none
  | [] => none

/-- Text without the slash that it may begin with. -/
def withoutSlash (kind : SchemeKind) (cs : List Char) : List Char :=
  (afterSlash? kind cs).getD cs

/-- Whether a character may follow the first one of a scheme. -/
def isSchemeChar (c : Char) : Bool :=
  c.isAlphanum || c = '+' || c = '-' || c = '.'

/-- The scheme of a text in lower case, and what follows its colon, breaks included. -/
def takeScheme? (cs : List Char) : Option (List Char × List Char) :=
  let raw := cs.takeWhile fun c => isSchemeChar c || isBreak c
  let name := withoutBreaks raw
  match name, cs.drop raw.length with
  | first :: _, ':' :: rest => if first.isAlpha then some (name.map Char.toLower, rest) else none
  | _, _ => none

/-! ## Segments of a path -/

/-- Whether an encoded segment is a `.`. -/
def isSingleDot (segment : List Char) : Bool :=
  ["." , "%2e", "%2E"].any fun s => segment = s.toList

/-- Whether an encoded segment is a `..`. -/
def isDoubleDot (segment : List Char) : Bool :=
  ["..", "%2e.", "%2E.", ".%2e", ".%2E", "%2e%2e", "%2e%2E", "%2E%2e", "%2E%2E"].any
    fun s => segment = s.toList

/-- Whether a text is a letter followed by a colon or a bar. -/
def isDriveLetter : List Char → Bool
  | [letter, mark] => letter.isAlpha && (mark = ':' || mark = '|')
  | _ => false

/-- Whether a segment starts with a drive letter, so that `..` does not take it away. -/
def startsWithDriveLetter : List Char → Bool
  | [letter, mark] => isDriveLetter [letter, mark]
  | letter :: mark :: next :: _ => isDriveLetter [letter, mark] && next = '\\'
  | _ => false

/-- The parts of a segment that a break divides behind a drive letter: the drive letter and the
rest, without further breaks. -/
def splitBehindDriveLetter? (raw : List Char) : Option (List Char × List Char) :=
  let drive := raw.takeWhile (· ≠ ':')
  match withoutBreaks drive, raw.drop drive.length with
  | [letter], mark :: next :: rest =>
    let behind := withoutBreaks rest
    if letter.isAlpha && isBreak next && behind ≠ [] then some ([letter, mark], behind) else none
  | _, _ => none

/-- The segments of a path read so far: those that a slash follows, and whether a drive letter has
been found that replaces the host. -/
structure PathState where
  /-- The segments, in order. -/
  segments : List (List Char)
  /-- Whether the path begins with a drive letter that was recognized. -/
  onDrive : Bool
  deriving DecidableEq, Repr

/-- What a `..` leaves of the segments. -/
def dropSegment (segments : List (List Char)) : List (List Char) :=
  match segments.getLast? with
  | some last => if startsWithDriveLetter last then segments else segments.dropLast
  | none => []

/-- The state after one more segment that a slash follows. -/
def PathState.push (kind : SchemeKind) (state : PathState) (segment : List Char) : PathState :=
  if isDoubleDot segment then { state with segments := dropSegment state.segments }
  else if isSingleDot segment then state
  else if kind = .file ∧ state.segments = [] ∧ isDriveLetter segment then
    ⟨[segment.take 1 ++ [':']], true⟩
  else { state with segments := state.segments ++ [segment] }

/-- The segments of a whole path. The last segment has no slash behind it; if it is a `.` or `..`,
an empty segment takes its place. -/
def PathState.pushLast (kind : SchemeKind) (state : PathState) (segment : List Char) : PathState :=
  let after := state.push kind segment
  if isDoubleDot segment ∨ isSingleDot segment then
    { after with segments := after.segments ++ [[]] }
  else after

/-- The state after the first segment of the path of a file if a break divides it behind a drive
letter. The rules for dots and drive letters do not apply to the parts. -/
def PathState.pushDivided? (kind : SchemeKind) (state : PathState) (raw : List Char) :
    Option PathState :=
  if kind = .file ∧ state.segments = [] then
    (splitBehindDriveLetter? raw).map fun (drive, rest) =>
      { state with segments := [drive, Percent.encodeText Percent.path rest] }
  else none

/-- Reads the segments of a path from raw text without its leading slash; breaks may stand in it. -/
def PathState.read (kind : SchemeKind) (state : PathState) (raw : List Char) : PathState :=
  let segments := Text.splitWhere (isSlash kind) raw
  let encode (raw : List Char) : List Char := Percent.encodeText Percent.path (withoutBreaks raw)
  match segments.getLast? with
  | none => state
  | some last =>
    let inner := segments.dropLast.foldl
      (fun state raw => (state.pushDivided? kind raw).getD (state.push kind (encode raw))) state
    (inner.pushDivided? kind last).getD (inner.pushLast kind (encode last))

/-- A path of segments, with a slash before each. -/
def pathText (segments : List (List Char)) : List Char :=
  segments.flatMap fun segment => '/' :: segment

/-- The path of a file: empty segments at its start are left out. -/
def filePathText (segments : List (List Char)) : List Char :=
  match segments.dropWhile (· = []) with
  | [] => ['/']
  | kept => pathText kept

/-! ## Query and fragment -/

/-- The serialized query and fragment at the end of a text. -/
def tailText (kind : SchemeKind) (cs : List Char) : List Char :=
  let fragmentText (cs : List Char) : List Char := '#' :: Percent.encodeText Percent.fragment cs
  match cs with
  | '?' :: rest =>
    let query := rest.takeWhile (· ≠ '#')
    let reserved := if kind = .plain then Percent.query else Percent.specialQuery
    '?' :: Percent.encodeText reserved query ++
      match rest.drop query.length with
      | '#' :: fragment => fragmentText fragment
      | _ => []
  | '#' :: fragment => fragmentText fragment
  | _ => []

/-! ## Authority -/

/-- Whether a character ends the authority. -/
def endsHost (kind : SchemeKind) (c : Char) : Bool :=
  endsAuthority c || (c = '\\' && kind ≠ .plain)

/-- The serialized user information, `@` included; empty if neither name nor password is. -/
def userinfoText (raw : List Char) : List Char :=
  let name := raw.takeWhile (· ≠ ':')
  let password := raw.drop (name.length + 1)
  let text := Percent.encodeText Percent.userinfo name ++
    if password = [] then [] else ':' :: Percent.encodeText Percent.userinfo password
  if text = [] then [] else text ++ ['@']

/-- Splits the user information off an authority: its serialized form, and what follows. -/
def takeUserinfo (kind : SchemeKind) (cs : List Char) :
    Except ParseError (List Char × List Char) :=
  match Text.splitAtLast? (· = '@') (cs.takeWhile fun c => !endsHost kind c) with
  | none => .ok ([], cs)
  | some (raw, _) =>
    let rest := cs.drop (raw.length + 1)
    if raw = [] ∧ (rest.head?.map (endsHost kind)).getD false then .error .emptyHost
    else .ok (userinfoText raw, rest)

/-- The raw host at the start of a text: up to a slash, query or fragment, or up to a colon
outside brackets. -/
def rawHost (kind : SchemeKind) : Bool → List Char → List Char
  | _, [] => []
  | inBrackets, c :: rest =>
    if endsHost kind c || (c = ':' && !inBrackets) then []
    else c :: rawHost kind (if c = '[' then true else if c = ']' then false else inBrackets) rest

/-- Reads the digits of a port: its number if there is any digit, and what follows. -/
def takePort (cs : List Char) : Except ParseError (Option Nat × List Char) :=
  let digits := cs.takeWhile Char.isDigit
  let rest := cs.drop digits.length
  let ends := match rest with
    | [] => true
    | c :: _ => endsHost .special c
  match Host.numberOfDigits? 10 digits with
  | none => .error .invalidPort
  | some port =>
    if 65535 < port ∨ !ends then .error .invalidPort
    else .ok (if digits = [] then none else some port, rest)

/-- The serialized port behind a host, and what follows. -/
def takePortText (scheme : List Char) (cs : List Char) :
    Except ParseError (List Char × List Char) :=
  match cs with
  | ':' :: rest => do
    let (port?, rest) ← takePort rest
    match port? with
    | none => return ([], rest)
    | some port =>
      return (if defaultPort? scheme = some port then [] else ':' :: Host.decimal port, rest)
  | _ => .ok ([], cs)

/-- Reads what follows `//`: the serialized authority, and the rest of the text. -/
def takeAuthority [DomainNames] (kind : SchemeKind) (scheme : List Char) (cs : List Char) :
    Except ParseError (List Char × List Char) := do
  let (userinfo, cs) ← takeUserinfo kind cs
  let raw := rawHost kind false cs
  let rest := cs.drop raw.length
  -- A plain scheme may do without a host, but not with a user or a port before or behind nothing.
  if raw = [] ∧ (kind = .special ∨ rest.head? = some ':' ∨ userinfo ≠ []) then .error .emptyHost
  else
    let host ← if kind = .plain then Host.parseOther raw else Host.parseDomain raw
    let (port, rest) ← takePortText scheme rest
    return (userinfo ++ host.text ++ port, rest)

/-! ## URLs by kind of scheme -/

/-- The path after an authority, and the rest of the text. Special schemes always have one. -/
def takePath (kind : SchemeKind) (cs : List Char) : List Char × List Char :=
  let raw := untilQuery cs
  if kind = .plain ∧ raw = [] then ([], cs)
  else
    (pathText (PathState.read kind ⟨[], false⟩ (withoutSlash kind raw)).segments,
      cs.drop raw.length)

/-- The text after the scheme of a URL with an authority. -/
def afterDoubleSlash [DomainNames] (kind : SchemeKind) (scheme cs : List Char) :
    Except ParseError (List Char) := do
  let (authority, rest) ← takeAuthority kind scheme cs
  let (path, rest) := takePath kind rest
  return '/' :: '/' :: authority ++ path ++ tailText kind rest

/-- The text after a scheme that is not special. -/
def afterPlainScheme [DomainNames] (scheme cs : List Char) : Except ParseError (List Char) :=
  match cs with
  | '/' :: '/' :: rest => afterDoubleSlash .plain scheme rest
  | '/' :: _ =>
    let (path, rest) := takePath .plain cs
    -- Without the guard the path would be read as an authority.
    let guard := if path.take 2 = ['/', '/'] then ['/', '.'] else []
    .ok (guard ++ path ++ tailText .plain rest)
  | _ =>
    let raw := untilQuery cs
    .ok (Percent.encodeText Percent.controls raw ++ tailText .plain (cs.drop raw.length))

/-- The text after `file:` for a host that is already serialized, from raw text behind the host; a
drive letter at the start of the path replaces the host. -/
def afterFileHost (host : List Char) (state : PathState) (cs : List Char) : List Char :=
  let raw := untilQuery cs
  let path := state.read .file raw
  '/' :: '/' :: (if path.onDrive then [] else host) ++ filePathText path.segments ++
    tailText .file (withoutBreaks (cs.drop raw.length))

/-- The text after the scheme `file`, from raw text. A host is read only after two slashes, and not
if it is empty or looks like a drive letter. Where no host is kept, because it is empty or the local
one, the slash behind it stays in front of the path as an empty first segment. -/
def afterFileScheme [DomainNames] (cs : List Char) : Except ParseError (List Char) :=
  match (afterSlash? .file cs).bind (afterSlash? .file) with
  | none => .ok (afterFileHost [] ⟨[], false⟩ (withoutSlash .file cs))
  | some cs =>
    let raw := cs.takeWhile fun c => !endsHost .file c
    let name := withoutBreaks raw
    if name = [] ∨ isDriveLetter name then .ok (afterFileHost [] ⟨[], false⟩ cs)
    else do
      let host ← Host.parseDomain name
      let rest := cs.drop raw.length
      if host = .domain "localhost".toList then return afterFileHost [] ⟨[], false⟩ rest
      else return afterFileHost host.text ⟨[], false⟩ (withoutSlash .file rest)

/-! ## Reading a URL -/

/-- Whether a character does not count at the ends of a text. -/
def isSpaceOrControl (c : Char) : Bool :=
  c.toNat ≤ 0x20

/-- A text without the spaces and controls around it. -/
def trim (cs : List Char) : List Char :=
  ((cs.dropWhile isSpaceOrControl).reverse.dropWhile isSpaceOrControl).reverse

/-- Reads an absolute URL. -/
def parse [DomainNames] (text : String) : Except ParseError Url :=
  match takeScheme? (trim text.toList) with
  | none => .error .noScheme
  | some (scheme, rest) => do
    let after ←
      match SchemeKind.of scheme with
      | .file => afterFileScheme rest
      | .special =>
        afterDoubleSlash .special scheme ((withoutBreaks rest).dropWhile (isSlash .special))
      | .plain => afterPlainScheme scheme (withoutBreaks rest)
    return ⟨String.ofList (scheme ++ ':' :: after)⟩

end WorkspaceSession.Url
