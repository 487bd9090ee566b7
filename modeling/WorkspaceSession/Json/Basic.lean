/-
JSON values.

Settings come as JSON and reports can be written as JSON. A number is an integer, or a real given
by the 64 bits of its floating-point form; the two are told apart by their spelling, because
messages name a number the way it was meant. The members of an object are in the order in which
they are visited.
-/
import WorkspaceSession.Decimal.Shortest
import WorkspaceSession.Text.Quoted

set_option autoImplicit false

namespace WorkspaceSession

/-- A JSON value. -/
inductive Json where
  /-- The value `null`. -/
  | null
  /-- A truth value. -/
  | bool (b : Bool)
  /-- A number spelled as an integer of at most 64 bits. -/
  | integer (n : Int)
  /-- Any other number, by the bits of its binary64 form. -/
  | real (bits : UInt64)
  /-- A text. -/
  | string (s : String)
  /-- A sequence. -/
  | array (items : List Json)
  /-- Named values. -/
  | object (members : List (String × Json))
  deriving Repr, Inhabited

namespace Json

/-- The member of an object with a name; nothing for a value that is no object. -/
def member? (value : Json) (name : String) : Option Json :=
  match value with
  | .object members => (members.find? fun entry => entry.1 = name).map Prod.snd
  | _ => none

/-! ## Numbers as text -/

/-- A real in the fewest digits that read back. Exponents from -5 to 15 are written out, with at
least one digit behind the point; others follow an `e` with their sign. -/
def realText (bits : UInt64) : String :=
  let sign := if Decimal.isNegative bits then "-" else ""
  let binary := Decimal.Binary.ofBits bits
  if binary.mantissa = 0 then sign ++ "0.0"
  else
    let (digits, exponent) := binary.shortest.normal
    let text :=
      if exponent < -5 ∨ 15 < exponent then
        let (first, others) := (digits.take 1, digits.drop 1)
        first ++ (if others = [] then [] else '.' :: others)
          ++ (if exponent < 0 then "e".toList else "e+".toList) ++ (toString exponent).toList
      else if exponent < 0 then
        "0.".toList ++ List.replicate ((-exponent).toNat - 1) '0' ++ digits
      else
        let whole := exponent.toNat + 1
        let padded := digits ++ List.replicate (whole - digits.length) '0'
        let fraction := padded.drop whole
        padded.take whole ++ '.' :: (if fraction = [] then ['0'] else fraction)
    sign ++ String.ofList text

/-! ## What a message calls a value -/

/-- A value as a message about its type names it. -/
def describe : Json → String
  | .null => "null"
  | .bool b => "boolean \x60" ++ (if b then "true" else "false") ++ "\x60"
  | .integer n => "integer \x60" ++ toString n ++ "\x60"
  | .real bits => "floating point \x60" ++ realText bits ++ "\x60"
  | .string s => "string " ++ Text.Quoted.encode s
  | .array _ => "sequence"
  | .object _ => "map"

end Json

end WorkspaceSession
