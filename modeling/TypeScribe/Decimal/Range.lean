/-!
# The range of doubles

A decimal numeral is a list of digits with a power of ten. It may lie beyond every double.
`overflows` tells so from its exact value; `overflowsStepwise` from the product of two doubles, as
a reader gets it that rounds the digits and the power of ten before it multiplies them.
-/
namespace TypeScribe.Decimal
set_option autoImplicit false

/-- The natural number that decimal digits write. -/
def natural (digits : List Char) : Nat :=
  digits.foldl (fun n c => n * 10 + (c.toNat - '0'.toNat)) 0

/-- The least number that rounds to infinity: halfway from the largest double to `2 ^ 1024`. -/
def overflowBound : Nat := Nat.pow 2 1024 - Nat.pow 2 970

/-- The nearest number of at most 53 binary digits; of two, the even one. -/
def roundToDouble (n : Nat) : Nat :=
  let unit := Nat.pow 2 (n.log2 - 52)
  let count := n / unit
  let rest := n % unit
  if unit < 2 * rest ∨ (unit = 2 * rest ∧ count % 2 = 1) then (count + 1) * unit else count * unit

/-- The largest power of ten that is a double. -/
def largestExponent : Nat := 308

/-- Whether digits times a power of ten round to infinity. Numerals far from the bound are told by
their size alone. -/
def overflows (digits : List Char) (exponent : Int) : Bool :=
  if natural digits = 0 then false
  else if exponent > largestExponent then true
  else if exponent + digits.length ≤ largestExponent then false
  else overflowBound * Nat.pow 10 (-exponent).toNat ≤ natural digits * Nat.pow 10 exponent.toNat

/-- Whether a rounded significand times a rounded power of ten rounds to infinity. -/
def overflowsStepwise (significand : Nat) (exponent : Int) : Bool :=
  if significand = 0 ∨ exponent < 0 then false
  else if exponent > largestExponent then true
  else overflowBound ≤ roundToDouble significand * roundToDouble (Nat.pow 10 exponent.toNat)

end TypeScribe.Decimal
