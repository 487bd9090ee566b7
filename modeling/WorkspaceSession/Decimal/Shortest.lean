/-
Shortest decimals of binary64 numbers.

A positive finite number is `mantissa * 2^exponent`, and the reals that round to it form an
interval around it, with its ends if the mantissa is even. The shortest decimal is the one with the
fewest digits in that interval; among those of equal length it is the nearest one, and of two
equally near ones the one with the even last digit. For each number of digits only the two decimals
next to the value can be it, so the search looks at these for one digit, two digits, and so on;
seventeen always suffice. All comparisons are between naturals, over a common denominator.
-/

set_option autoImplicit false

namespace WorkspaceSession.Decimal

/-! ## Binary64 -/

/-- A positive number `mantissa * 2^(exponent - 1076)`, with `lowest` whether the mantissa is the
lowest one of its binade, so that the next smaller number is only half as far as the next larger. -/
structure Binary where
  /-- The mantissa, below 2^53. -/
  mantissa : Nat
  /-- The exponent, counted from 2^-1076. -/
  exponent : Nat
  /-- Whether the gap below the number is half the gap above it. -/
  lowest : Bool
  deriving DecidableEq, Repr

/-- Whether the sign bit of a binary64 number is set. -/
def isNegative (bits : UInt64) : Bool :=
  1 <<< 63 ≤ bits.toNat

/-- The magnitude of a finite binary64 number. -/
def Binary.ofBits (bits : UInt64) : Binary :=
  let fraction := bits.toNat % (1 <<< 52)
  let biased := bits.toNat >>> 52 % (1 <<< 11)
  if biased = 0 then ⟨fraction, 2, false⟩
  else ⟨(1 <<< 52) + fraction, biased + 1, fraction = 0 && biased ≠ 1⟩

/-! ## Decimals -/

/-- A decimal `digits * 10^exponent`. -/
structure Scientific where
  /-- The digits as a number. -/
  digits : Nat
  /-- The power of ten. -/
  exponent : Int
  deriving DecidableEq, Repr

/-- The common denominator of the values below: a quarter of the unit of the least exponent. -/
def denominator : Nat := 1 <<< 1076

/-- The value of a number, and the ends of its interval, as numerators over `denominator`. -/
def Binary.bounds (b : Binary) : Nat × Nat × Nat :=
  let quarter := 1 <<< (b.exponent - 2)
  ((4 * b.mantissa - if b.lowest then 1 else 2) * quarter, 4 * b.mantissa * quarter,
    (4 * b.mantissa + 2) * quarter)

/-- Whether a numerator over a denominator lies in the interval of a number. -/
def Binary.covers (b : Binary) (numerator scale : Nat) : Bool :=
  let (low, _, high) := b.bounds
  if b.mantissa % 2 = 0 then
    low * scale ≤ numerator * denominator && numerator * denominator ≤ high * scale
  else low * scale < numerator * denominator && numerator * denominator < high * scale

/-- The decimal with a given last place that is in the interval and nearest, if there is one. -/
def Binary.nearestAt (b : Binary) (place : Int) : Option Scientific :=
  let (_, value, _) := b.bounds
  let up := Nat.pow 10 place.toNat
  let down := Nat.pow 10 (-place).toNat
  let below := value * down / (denominator * up)
  let remainder := value * down % (denominator * up)
  let inBelow := b.covers (below * up) down
  let inAbove := b.covers ((below + 1) * up) down
  -- A tie goes to the even digit.
  let preferBelow := 2 * remainder < denominator * up
    || (2 * remainder = denominator * up && below % 2 = 0)
  if inBelow && (preferBelow || !inAbove) then some ⟨below, place⟩
  else if inAbove then some ⟨below + 1, place⟩
  else none

/-- The power of ten of the first digit of a positive number. -/
def Binary.magnitude (b : Binary) : Int :=
  let (_, value, _) := b.bounds
  ((Nat.toDigits 10 (value * Nat.pow 10 400 / denominator)).length : Int) - 401

/-- The shortest decimal of a positive number. -/
def Binary.shortest (b : Binary) : Scientific :=
  ((List.range 17).findSome? fun (n : Nat) => b.nearestAt (b.magnitude - n)).getD
    ⟨b.mantissa, 0⟩

/-- The digits of a decimal without zeros at their end, and the power of ten of the first one. -/
def Scientific.normal (s : Scientific) : List Char × Int :=
  let digits := Nat.toDigits 10 s.digits
  let kept := (digits.reverse.dropWhile (· = '0')).reverse
  (kept, s.exponent + digits.length - 1)

end WorkspaceSession.Decimal
