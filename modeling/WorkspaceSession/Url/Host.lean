/-
Hosts.

The host of a special scheme is a domain name, an IPv4 address if its last label is a number, or an
IPv6 address in brackets; escapes in it are decoded first. A domain name stands in the URL in its
ASCII form, by the mapping of domain names that the reading is given. The host of any other scheme
is kept as it is, escapes included, as long as it holds no character that would end it.

Addresses are written in one canonical way: an IPv4 address as four decimal numbers, an IPv6
address as lower-case groups with the first longest run of two or more zero groups left out.
-/
import WorkspaceSession.Url.Basic
import WorkspaceSession.Url.DomainNames
import WorkspaceSession.Url.Percent

set_option autoImplicit false

namespace WorkspaceSession.Url

/-- A host that has been understood. -/
inductive Host where
  /-- A name, in its serialized form. -/
  | domain (name : List Char)
  /-- An IPv4 address as one number below 2^32. -/
  | ipv4 (address : Nat)
  /-- An IPv6 address as eight groups below 2^16. -/
  | ipv6 (groups : List Nat)
  deriving DecidableEq, Repr

namespace Host

/-! ## IPv4 -/

/-- The value of a digit in a base up to sixteen. -/
def digitValue? (base : Nat) (c : Char) : Option Nat :=
  if c.toNat < 0x80 then (Percent.hexValue? c.toNat.toUInt8).filter (· < base) else none

/-- The value of digits in a base; no digits are zero. -/
def numberOfDigits? (base : Nat) (cs : List Char) : Option Nat :=
  cs.foldlM (fun value c => (digitValue? base c).map (value * base + ·)) 0

/-- One number of an IPv4 address: hexadecimal after `0x`, octal after `0`, decimal otherwise. -/
def ipv4Number? : List Char → Option Nat
  | [] => none
  | '0' :: 'x' :: digits => numberOfDigits? 16 digits
  | '0' :: 'X' :: digits => numberOfDigits? 16 digits
  | '0' :: digit :: digits => numberOfDigits? 8 (digit :: digits)
  | digits => numberOfDigits? 10 digits

/-- The labels of a name, without an empty last one. -/
def labels (name : List Char) : List (List Char) :=
  let all := Text.splitWhere (· = '.') name
  if all.getLast? = some [] then all.dropLast else all

/-- Whether the last label of a name is a number, so that the name has to be an IPv4 address. -/
def endsInNumber (name : List Char) : Bool :=
  match (labels name).getLast? with
  | none => false
  | some label =>
    (label ≠ [] && label.all fun c => (digitValue? 10 c).isSome) || (ipv4Number? label).isSome

/-- The address given by up to four numbers, of which the last one fills the remaining bytes. -/
def ipv4OfNumbers? (numbers : List Nat) : Option Nat :=
  match numbers.getLast? with
  | none => none
  | some last =>
    let leading := numbers.dropLast
    if leading.length ≤ 3 ∧ last < 1 <<< (8 * (4 - leading.length)) ∧ leading.all (· < 256) then
      some (leading.foldl (fun value n => value <<< 8 + n) 0 <<< (8 * (4 - leading.length)) + last)
    else none

/-- Reads an IPv4 address. -/
def parseIpv4? (name : List Char) : Option Nat :=
  ((labels name).mapM ipv4Number?).bind ipv4OfNumbers?

/-! ## IPv6 -/

/-- One of the four decimal numbers at the end of an IPv6 address. -/
def decimalByte? (cs : List Char) : Option Nat :=
  if cs = [] ∨ (cs.head? = some '0' ∧ cs.length ≠ 1) then none
  else (numberOfDigits? 10 cs).filter (· < 256)

/-- The two groups given by an IPv4 address at the end of an IPv6 address. -/
def embeddedIpv4? (cs : List Char) : Option (List Nat) :=
  match (Text.splitWhere (· = '.') cs).mapM decimalByte? with
  | some [a, b, c, d] => some [a * 256 + b, c * 256 + d]
  | _ => none

/-- Reads groups until the end. `groups` are those read so far and `gap?` is where the run of
zero groups written `::` belongs; the gap itself counts as one zero group. -/
def ipv6Groups? : Nat → List Nat → Option Nat → List Char → Option (List Nat × Option Nat)
  | 0, _, _, _ => none
  | _ + 1, groups, gap?, [] => some (groups, gap?)
  | fuel + 1, groups, gap?, c :: cs =>
    if groups.length = 8 then none
    else if c = ':' then
      if gap?.isSome then none
      else ipv6Groups? fuel (groups ++ [0]) (some (groups.length + 1)) cs
    else
      let digits := ((c :: cs).take 4).takeWhile fun d => (digitValue? 16 d).isSome
      let value := (numberOfDigits? 16 digits).getD 0
      match (c :: cs).drop digits.length with
      | [] => some (groups ++ [value], gap?)
      -- A dot behind the digits makes them the first number of an IPv4 address.
      | '.' :: _ =>
        if digits = [] ∨ 6 < groups.length then none
        else (embeddedIpv4? (c :: cs)).map fun last => (groups ++ last, gap?)
      | ':' :: rest =>
        if rest = [] then none else ipv6Groups? fuel (groups ++ [value]) gap? rest
      | _ => none

/-- Reads the inside of the brackets of an IPv6 address. -/
def parseIpv6? (cs : List Char) : Option (List Nat) :=
  let read :=
    match cs with
    | ':' :: ':' :: rest => ipv6Groups? (rest.length + 1) [0] (some 1) rest
    | ':' :: _ => none
    | cs => if cs.length < 2 then none else ipv6Groups? (cs.length + 1) [] none cs
  match read with
  | some (groups, some gap) =>
    some (groups.take gap ++ List.replicate (8 - groups.length) 0 ++ groups.drop gap)
  | some (groups, none) => if groups.length = 8 then some groups else none
  | none => none

/-! ## Writing -/

/-- Decimal digits of a number. -/
def decimal (n : Nat) : List Char :=
  (Nat.toDigits 10 n)

/-- The four numbers of an IPv4 address between dots. -/
def ipv4Text (address : Nat) : List Char :=
  List.intercalate ['.'] ([3, 2, 1, 0].map fun i => decimal (address >>> (8 * i) % 256))

/-- The start and length of the first longest run of zero groups, counted from `index`. -/
def longestZeroRun (groups : List Nat) : Nat × Nat :=
  (List.range groups.length).foldl
    (fun best start =>
      let run := ((groups.drop start).takeWhile (· = 0)).length
      if best.2 < run then (start, run) else best)
    (0, 0)

/-- Groups in lower-case hexadecimal between colons. -/
def groupsText (groups : List Nat) : List Char :=
  List.intercalate [':'] (groups.map fun g => Nat.toDigits 16 g)

/-- An IPv6 address in brackets. -/
def ipv6Text (groups : List Nat) : List Char :=
  let (start, run) := longestZeroRun groups
  let inside :=
    if run < 2 then groupsText groups
    else groupsText (groups.take start) ++ [':', ':'] ++ groupsText (groups.drop (start + run))
  '[' :: inside ++ [']']

/-- The serialized form of a host. -/
def text : Host → List Char
  | .domain name => name
  | .ipv4 address => ipv4Text address
  | .ipv6 groups => ipv6Text groups

/-! ## Reading a host -/

/-- Characters that no host may hold. -/
def isForbidden (c : Char) : Bool :=
  ['\x00', '\t', '\n', '\r', ' ', '#', '/', ':', '<', '>', '?', '@', '[', '\\', ']', '^',
    '|'].contains c

/-- Characters that no domain name may hold: besides those of every host, controls and `%`. -/
def isForbiddenInDomain (c : Char) : Bool :=
  isForbidden c || Percent.controls c || c = '%'

/-- Reads a host in brackets. -/
def parseBracketed (inside : List Char) : Except ParseError Host :=
  if inside.getLast? = some ']' then
    match parseIpv6? inside.dropLast with
    | some groups => .ok (.ipv6 groups)
    | none => .error .invalidIpv6
  else .error .invalidIpv6

/-- The host that a name in ASCII stands for. -/
def ofName (name : List Char) : Except ParseError Host :=
  if name.any isForbiddenInDomain then .error .invalidDomain
  else if name = [] then .error .emptyHost
  else if endsInNumber name then
    match parseIpv4? name with
    | some address => .ok (.ipv4 address)
    | none => .error .invalidIpv4
  else .ok (.domain name)

/-- Reads the host of a special scheme. -/
def parseDomain [DomainNames] (cs : List Char) : Except ParseError Host :=
  match cs with
  | '[' :: inside => parseBracketed inside
  | cs =>
    match Text.Utf8.decode? (Percent.decode (Text.Utf8.encode cs)) with
    | none => .error .invalidDomain
    | some decoded =>
      match DomainNames.toAscii? decoded with
      | none => .error .invalidDomain
      | some name => ofName name

/-- Reads the host of a scheme that is not special. -/
def parseOther (cs : List Char) : Except ParseError Host :=
  match cs with
  | '[' :: inside => parseBracketed inside
  | cs =>
    if cs.any isForbidden then .error .invalidHostCharacter
    else .ok (.domain (Percent.encodeText Percent.controls cs))

end Host

end WorkspaceSession.Url
