/-
Reading JSON.

The text is read byte by byte, and the first byte that cannot stand where it stands decides the
error; its line and column are counted in bytes. White space is blank, tab and the two line ends.
Values nest at most 127 deep. The members of an object are kept in the order of their names, and of
several members of one name the last one counts.

An integer that fits into 64 bits stays an integer. Every other number becomes a real: its digits,
as far as they fit into 64 bits, are one floating-point number, and a single multiplication or
division by a power of ten scales it, so a real is not always the nearest one to its spelling.
-/
import WorkspaceSession.Json.Basic
import WorkspaceSession.Text.Utf8

set_option autoImplicit false

namespace WorkspaceSession.Json

/-! ## Errors -/

/-- Why a text is no JSON. -/
inductive SyntaxCause where
  /-- The text ends inside a sequence. -/
  | endInArray
  /-- The text ends inside an object. -/
  | endInObject
  /-- The text ends inside a string. -/
  | endInString
  /-- The text ends where a value has to be. -/
  | endBeforeValue
  /-- A member has no colon. -/
  | expectedColon
  /-- An item is followed by neither a comma nor the end of the sequence. -/
  | expectedItemEnd
  /-- A member is followed by neither a comma nor the end of the object. -/
  | expectedMemberEnd
  /-- A word is not one of the three known ones. -/
  | unknownWord
  /-- No value starts here. -/
  | expectedValue
  /-- An escape is unknown. -/
  | invalidEscape
  /-- A number is malformed. -/
  | invalidNumber
  /-- A number is too large. -/
  | numberOutOfRange
  /-- A control character stands inside a string. -/
  | controlInString
  /-- The name of a member is no string. -/
  | nameNotString
  /-- One half of an escaped pair stands alone. -/
  | loneHalf
  /-- A comma stands before the end of a sequence or object. -/
  | trailingComma
  /-- Something follows the value. -/
  | trailingCharacters
  /-- The second half of an escaped pair is missing. -/
  | missingHalf
  /-- Values are nested too deep. -/
  | tooDeep
  deriving DecidableEq, Repr

/-- The wording of a cause. -/
def SyntaxCause.message : SyntaxCause → String
  | .endInArray => "EOF while parsing a list"
  | .endInObject => "EOF while parsing an object"
  | .endInString => "EOF while parsing a string"
  | .endBeforeValue => "EOF while parsing a value"
  | .expectedColon => "expected \x60:\x60"
  | .expectedItemEnd => "expected \x60,\x60 or \x60]\x60"
  | .expectedMemberEnd => "expected \x60,\x60 or \x60\x7d\x60"
  | .unknownWord => "expected ident"
  | .expectedValue => "expected value"
  | .invalidEscape => "invalid escape"
  | .invalidNumber => "invalid number"
  | .numberOutOfRange => "number out of range"
  | .controlInString => "control character (\\u0000-\\u001F) found while parsing a string"
  | .nameNotString => "key must be a string"
  | .loneHalf => "lone leading surrogate in hex escape"
  | .trailingComma => "trailing comma"
  | .trailingCharacters => "trailing characters"
  | .missingHalf => "unexpected end of hex escape"
  | .tooDeep => "recursion limit exceeded"

/-- A text that is no JSON: why, and after how many bytes that shows. -/
structure SyntaxError where
  /-- Why the text is no JSON. -/
  cause : SyntaxCause
  /-- The line, from one. -/
  line : Nat
  /-- The bytes of that line that were looked at. -/
  column : Nat
  deriving DecidableEq, Repr

/-- The wording of a syntax error. -/
def SyntaxError.message (e : SyntaxError) : String :=
  e.cause.message ++ " at line " ++ toString e.line ++ " column " ++ toString e.column

/-- A failure while reading: its cause, and how many bytes were not yet looked at. -/
structure Failure where
  /-- The cause. -/
  cause : SyntaxCause
  /-- The number of bytes not yet looked at. -/
  unread : Nat

/-- What reading a part gives: its value and the bytes behind it. -/
abbrev Step (α : Type) := Except Failure (α × Bytes)

/-- A failure behind everything read so far. -/
def failAt {α : Type} (cause : SyntaxCause) (rest : Bytes) : Except Failure α :=
  .error ⟨cause, rest.length⟩

/-- A failure that shows at the next byte, if there is one. -/
def failNext {α : Type} (cause : SyntaxCause) (rest : Bytes) : Except Failure α :=
  .error ⟨cause, rest.length - 1⟩

/-- The place of a failure in a text. -/
def SyntaxError.ofFailure (text : Bytes) (failure : Failure) : SyntaxError :=
  let seen := text.take (text.length - failure.unread)
  ⟨failure.cause, seen.count 0x0A + 1, (seen.reverse.takeWhile (· ≠ 0x0A)).length⟩

/-! ## White space and words -/

/-- The bytes behind white space. -/
def skipBlank (bytes : Bytes) : Bytes :=
  bytes.dropWhile fun b => b = 0x20 || b = 0x09 || b = 0x0A || b = 0x0D

/-- Reads the rest of a word. -/
def readWord (value : Json) : Bytes → Bytes → Step Json
  | [], rest => .ok (value, rest)
  | _ :: _, [] => failAt .endBeforeValue []
  | expected :: more, b :: rest =>
    if b = expected then readWord value more rest else failAt .unknownWord rest

/-! ## Numbers -/

/-- Whether a byte is a decimal digit. -/
def isDigit (b : UInt8) : Bool :=
  0x30 ≤ b && b ≤ 0x39

/-- The largest integer that a number without fraction and exponent can be. -/
def maxInteger : Nat := (1 <<< 64) - 1

/-- A floating-point power of ten. -/
def powerOfTen (n : Nat) : Float :=
  Float.ofScientific 1 false n

/-- Digits scaled by a power of ten; nothing if that is too large for a floating-point number. -/
def scale? (digits : Nat) (exponent : Int) : Option Float :=
  let f := digits.toUInt64.toFloat
  let down := (-exponent).toNat
  if 308 < exponent then if digits = 0 then some f else none
  else if 0 ≤ exponent then
    let product := f * powerOfTen exponent.toNat
    if product.isInf then none else some product
  -- No power of ten beyond the 308th is a floating-point number, so small numbers take two steps.
  else if down ≤ 308 then some (f / powerOfTen down)
  else if down ≤ 616 then some (f / powerOfTen 308 / powerOfTen (down - 308))
  else some 0

/-- A real from its sign, digits and power of ten. -/
def realOf (negative : Bool) (digits : Nat) (exponent : Int) (rest : Bytes) : Step Json :=
  match scale? digits exponent with
  | some f => .ok (.real (if negative then -f else f).toBits, rest)
  | none => failAt .numberOutOfRange rest

/-- Takes digits into a number as long as it fits into 64 bits: the number, how many digits were
taken, and what follows. -/
def takeDigits : Nat → Nat → Bytes → Nat × Nat × Bytes
  | value, taken, [] => (value, taken, [])
  | value, taken, b :: rest =>
    if isDigit b && value * 10 + (b.toNat - 0x30) ≤ maxInteger then
      takeDigits (value * 10 + (b.toNat - 0x30)) (taken + 1) rest
    else (value, taken, b :: rest)

/-- Whether a number goes on with an exponent. -/
def startsExponent (bytes : Bytes) : Bool :=
  bytes.head? = some 0x65 || bytes.head? = some 0x45

/-- The largest exponent that is told apart from greater ones. -/
def maxExponent : Nat := (1 <<< 31) - 1

/-- Takes the digits of an exponent as long as it stays below the largest one: the exponent, or
nothing if it grows too large, and what follows. -/
def takeExponent : Nat → Bytes → Option Nat × Bytes
  | value, [] => (some value, [])
  | value, b :: rest =>
    if isDigit b then
      let next := value * 10 + (b.toNat - 0x30)
      if maxExponent < next then (none, rest) else takeExponent next rest
    else (some value, b :: rest)

/-- Reads a number from its exponent on; `e` is the next byte. -/
def readExponent (negative : Bool) (digits : Nat) (start : Int) (bytes : Bytes) : Step Json :=
  let (down, afterSign) :=
    match bytes.drop 1 with
    | 0x2B :: rest => (false, rest)
    | 0x2D :: rest => (true, rest)
    | rest => (false, rest)
  match afterSign with
  | [] => failAt .endBeforeValue []
  | b :: rest =>
    if isDigit b then
      match takeExponent (b.toNat - 0x30) rest with
      | (some exponent, rest) =>
        realOf negative digits (if down then start - exponent else start + exponent) rest
      | (none, rest) =>
        -- Too small a number is zero, and zero stays zero at any exponent.
        if digits ≠ 0 ∧ !down then failAt .numberOutOfRange rest
        else .ok (.real (if negative then -0.0 else 0.0 : Float).toBits, rest.dropWhile isDigit)
    else failAt .invalidNumber rest

/-- Ends a number whose digits are complete. -/
def readAfterDigits (negative : Bool) (digits : Nat) (exponent : Int) (rest : Bytes) : Step Json :=
  if startsExponent rest then readExponent negative digits exponent rest
  else realOf negative digits exponent rest

/-- Reads a number from its point on. Digits that no longer fit into 64 bits do not count. -/
def readFraction (negative : Bool) (digits : Nat) (start : Int) (bytes : Bytes) : Step Json :=
  let rest := bytes.drop 1
  let (digits, taken, after) := takeDigits digits 0 rest
  if taken = 0 ∧ !((after.head?.map isDigit).getD false) then
    if after = [] then failAt .endBeforeValue [] else failNext .invalidNumber after
  else readAfterDigits negative digits (start - taken) (after.dropWhile isDigit)

/-- Reads a number behind the digits before its point. -/
def readAfterWhole (negative : Bool) (digits : Nat) (bytes : Bytes) : Step Json :=
  match bytes with
  | b :: rest =>
    if isDigit b then
      let more := (b :: rest).takeWhile isDigit
      let after := (b :: rest).drop more.length
      if after.head? = some 0x2E then readFraction negative digits more.length after
      else readAfterDigits negative digits more.length after
    else if b = 0x2E then readFraction negative digits 0 bytes
    else if startsExponent bytes then readExponent negative digits 0 bytes
    else ofWhole bytes
  | [] => ofWhole bytes
where
  /-- A number without fraction and exponent. -/
  ofWhole (rest : Bytes) : Step Json :=
    if !negative then .ok (.integer digits, rest)
    -- Minus zero and what lies below the 64-bit integers have no integer of their own.
    else if digits = 0 ∨ 1 <<< 63 < digits then
      .ok (.real (-(digits.toUInt64.toFloat)).toBits, rest)
    else .ok (.integer (-digits), rest)

/-- Reads a number behind its sign. -/
def readNumber (negative : Bool) (bytes : Bytes) : Step Json :=
  match bytes with
  | [] => failAt .endBeforeValue []
  | b :: rest =>
    if b = 0x30 then
      if (rest.head?.map isDigit).getD false then failNext .invalidNumber rest
      else readAfterWhole negative 0 rest
    else if isDigit b then
      let (digits, _, after) := takeDigits (b.toNat - 0x30) 1 rest
      readAfterWhole negative digits after
    else failAt .invalidNumber rest

/-! ## Strings -/

/-- The value of a hexadecimal digit. -/
def hexDigit? (b : UInt8) : Option Nat :=
  if isDigit b then some (b.toNat - 0x30)
  else if 0x41 ≤ b && b ≤ 0x46 then some (b.toNat - 0x37)
  else if 0x61 ≤ b && b ≤ 0x66 then some (b.toNat - 0x57)
  else none

/-- Reads four hexadecimal digits. -/
def readUnit (bytes : Bytes) : Step Nat :=
  match bytes with
  | a :: b :: c :: d :: rest =>
    match [a, b, c, d].mapM hexDigit? with
    | some digits => .ok (digits.foldl (fun n digit => n * 16 + digit) 0, rest)
    | none => failAt .invalidEscape rest
  | _ => failAt .endInString []

/-- Reads an escaped character from its first UTF-16 unit on. -/
def readEscapedUnit (bytes : Bytes) : Except Failure (Char × Bytes) := do
  let (first, rest) ← readUnit bytes
  if 0xDC00 ≤ first ∧ first ≤ 0xDFFF then failAt .loneHalf rest
  else if first < 0xD800 ∨ 0xDBFF < first then return (Char.ofNat first, rest)
  else
    match rest with
    | [] => failAt .endInString []
    | 0x5C :: rest =>
      match rest with
      | [] => failAt .endInString []
      | 0x75 :: rest =>
        let (second, rest) ← readUnit rest
        if second < 0xDC00 ∨ 0xDFFF < second then failAt .loneHalf rest
        else
          return (Char.ofNat ((first - 0xD800) * 0x400 + (second - 0xDC00) + 0x10000), rest)
      | _ :: rest => failAt .missingHalf rest
    | _ :: rest => failAt .missingHalf rest

/-- Reads the character that an escape stands for. -/
def readEscape (bytes : Bytes) : Step Char :=
  match bytes with
  | [] => failAt .endInString []
  | b :: rest =>
    if b = 0x75 then readEscapedUnit rest
    else if b = 0x22 then .ok ('"', rest)
    else if b = 0x5C then .ok ('\\', rest)
    else if b = 0x2F then .ok ('/', rest)
    else if b = 0x62 then .ok ('\x08', rest)
    else if b = 0x66 then .ok ('\x0C', rest)
    else if b = 0x6E then .ok ('\n', rest)
    else if b = 0x72 then .ok ('\r', rest)
    else if b = 0x74 then .ok ('\t', rest)
    else failAt .invalidEscape rest

/-- Reads a string behind its opening quote. `seen` are its bytes so far, the last one first. -/
def readString : Nat → Bytes → Bytes → Step String
  | 0, _, rest => failAt .endInString rest
  | _ + 1, _, [] => failAt .endInString []
  | fuel + 1, seen, b :: rest =>
    if b = 0x22 then .ok (Bytes.display seen.reverse, rest)
    else if b = 0x5C then
      match readEscape rest with
      | .ok (c, rest) => readString fuel ((Text.Utf8.encodeChar c).reverse ++ seen) rest
      | .error e => .error e
    else if b < 0x20 then failAt .controlInString rest
    else readString fuel (b :: seen) rest

/-! ## Values -/

/-- Puts a member into members ordered by name, over one of the same name. -/
def insertMember (name : String) (value : Json) : List (String × Json) → List (String × Json)
  | [] => [(name, value)]
  | (other, old) :: rest =>
    if name < other then (name, value) :: (other, old) :: rest
    else if name = other then (name, value) :: rest
    else (other, old) :: insertMember name value rest

/-- Reads the name of a member and its colon; the next byte is the opening quote. -/
def readName (bytes : Bytes) : Except Failure (String × Bytes) := do
  let (name, rest) ← readString bytes.length [] (bytes.drop 1)
  match skipBlank rest with
  | [] => failAt .endInObject []
  | b :: rest => if b = 0x3A then return (name, rest) else failNext .expectedColon (b :: rest)

mutual

/-- Reads a value. `depth` bounds its nesting and `fuel` the number of steps. -/
def readValue : Nat → Nat → Bytes → Step Json
  | 0, _, bytes => failAt .endBeforeValue bytes
  | fuel + 1, depth, bytes =>
    match skipBlank bytes with
    | [] => failAt .endBeforeValue []
    | b :: rest =>
      if b = 0x6E then readWord .null [0x75, 0x6C, 0x6C] rest
      else if b = 0x74 then readWord (.bool true) [0x72, 0x75, 0x65] rest
      else if b = 0x66 then readWord (.bool false) [0x61, 0x6C, 0x73, 0x65] rest
      else if b = 0x2D then readNumber true rest
      else if isDigit b then readNumber false (b :: rest)
      else if b = 0x22 then
        (readString (rest.length + 1) [] rest).map fun (s, rest) => (.string s, rest)
      else if b = 0x5B then
        if depth ≤ 1 then failNext .tooDeep (b :: rest) else readItems fuel (depth - 1) [] rest
      else if b = 0x7B then
        if depth ≤ 1 then failNext .tooDeep (b :: rest) else readMembers fuel (depth - 1) none rest
      else failNext .expectedValue (b :: rest)

/-- Reads the items of a sequence behind those already read, the last of which comes first. -/
def readItems : Nat → Nat → List Json → Bytes → Step Json
  | 0, _, _, bytes => failAt .endInArray bytes
  | fuel + 1, depth, items, bytes =>
    match skipBlank bytes with
    | [] => failAt .endInArray []
    | b :: rest =>
      if b = 0x5D then .ok (.array items.reverse, rest)
      else if items.isEmpty then readItem fuel depth items (b :: rest)
      else if b = 0x2C then
        match skipBlank rest with
        | [] => failAt .endBeforeValue []
        | b :: rest =>
          if b = 0x5D then failNext .trailingComma (b :: rest)
          else readItem fuel depth items (b :: rest)
      else failNext .expectedItemEnd (b :: rest)

/-- Reads one item of a sequence and those behind it. -/
def readItem : Nat → Nat → List Json → Bytes → Step Json
  | 0, _, _, bytes => failAt .endInArray bytes
  | fuel + 1, depth, items, bytes =>
    match readValue fuel depth bytes with
    | .ok (item, rest) => readItems fuel depth (item :: items) rest
    | .error e => .error e

/-- Reads the members of an object behind those already read, if there are any. -/
def readMembers : Nat → Nat → Option (List (String × Json)) → Bytes → Step Json
  | 0, _, _, bytes => failAt .endInObject bytes
  | fuel + 1, depth, members?, bytes =>
    match skipBlank bytes with
    | [] => failAt .endInObject []
    | b :: rest =>
      if b = 0x7D then .ok (.object (members?.getD []), rest)
      else
        match members? with
        | none =>
          if b = 0x22 then readMember fuel depth [] (b :: rest)
          else failNext .nameNotString (b :: rest)
        | some members =>
          if b = 0x2C then
            match skipBlank rest with
            | [] => failAt .endBeforeValue []
            | b :: rest =>
              if b = 0x22 then readMember fuel depth members (b :: rest)
              else if b = 0x7D then failNext .trailingComma (b :: rest)
              else failNext .nameNotString (b :: rest)
          else failNext .expectedMemberEnd (b :: rest)

/-- Reads one member of an object and those behind it. -/
def readMember : Nat → Nat → List (String × Json) → Bytes → Step Json
  | 0, _, _, bytes => failAt .endInObject bytes
  | fuel + 1, depth, members, bytes =>
    match readName bytes with
    | .ok (name, rest) =>
      match readValue fuel depth rest with
      | .ok (value, rest) => readMembers fuel depth (some (insertMember name value members)) rest
      | .error e => .error e
    | .error e => .error e

end

/-- The number of levels of nesting at which reading gives up. -/
def depthLimit : Nat := 128

/-- Reads a text that is one JSON value. -/
def parse (text : String) : Except SyntaxError Json :=
  let bytes := Bytes.ofString text
  let read : Except Failure Json :=
    match readValue (3 * bytes.length + 3) depthLimit bytes with
    | .ok (value, rest) =>
      let rest := skipBlank rest
      if rest = [] then .ok value else failNext .trailingCharacters rest
    | .error e => .error e
  read.mapError (SyntaxError.ofFailure bytes)

end WorkspaceSession.Json
