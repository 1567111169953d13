import TypeScribe.Decimal.Range

/-!
# JSON numbers

A number keeps its literal. Its value is taken as a significand of 64 bits and a power of ten:
digits of the whole part that no longer fit raise the power, digits of the fraction that no longer
fit are dropped.
-/
namespace TypeScribe.Json
set_option autoImplicit false

/-- The digits of a number and what stands after its exponent mark. -/
structure Numeral where
  isNegative : Bool
  whole : List Char
  fraction : List Char
  /-- The exponent with its mark and sign, empty if there is none. -/
  exponent : List Char

namespace Numeral

def literal (n : Numeral) : String :=
  String.ofList ((if n.isNegative then ['-'] else []) ++ n.whole
    ++ (if n.fraction.isEmpty then [] else '.' :: n.fraction) ++ n.exponent)

def significandLimit : Nat := Nat.pow 2 64

/-- Appends digits while they fit, and counts those that are left out. -/
def appendWhole (significand : Nat) : List Char → Nat × Nat
  | [] => (significand, 0)
  | d :: ds =>
    let next := significand * 10 + Decimal.natural [d]
    if next < significandLimit then appendWhole next ds else (significand, ds.length + 1)

/-- Appends digits while they fit, and counts those that are appended. -/
def appendFraction (significand : Nat) : List Char → Nat × Nat
  | [] => (significand, 0)
  | d :: ds =>
    let next := significand * 10 + Decimal.natural [d]
    if next < significandLimit then
      let (total, count) := appendFraction next ds
      (total, count + 1)
    else (significand, 0)

/-- The exponent as it is written. -/
def writtenExponent (n : Numeral) : Int :=
  match n.exponent with
  | _ :: '-' :: ds => -(Decimal.natural ds : Int)
  | _ :: '+' :: ds => Decimal.natural ds
  | _ :: ds => Decimal.natural ds
  | [] => 0

/-- Whether the value lies within the doubles. -/
def isInRange (n : Numeral) : Bool :=
  let (significand, dropped) := appendWhole 0 n.whole
  let (significand, appended) := appendFraction significand n.fraction
  !Decimal.overflowsStepwise significand (dropped - appended + n.writtenExponent)

/-- At least one digit. -/
def digits (s : List Char) : Option (List Char × List Char) :=
  match s.takeWhile Char.isDigit with
  | [] => none
  | ds => some (ds, s.dropWhile Char.isDigit)

/-- The whole part of a number: no zero before another digit. -/
def wholePart : List Char → Option (List Char × List Char)
  | '0' :: rest => some (['0'], rest)
  | s => digits s

def fractionPart : List Char → Option (List Char × List Char)
  | '.' :: rest => digits rest
  | s => some ([], s)

def exponentDigits : List Char → Option (List Char × List Char)
  | '+' :: rest => (digits rest).map fun (ds, tail) => ('+' :: ds, tail)
  | '-' :: rest => (digits rest).map fun (ds, tail) => ('-' :: ds, tail)
  | s => digits s

def exponentPart : List Char → Option (List Char × List Char)
  | 'e' :: rest => (exponentDigits rest).map fun (ds, tail) => ('e' :: ds, tail)
  | 'E' :: rest => (exponentDigits rest).map fun (ds, tail) => ('E' :: ds, tail)
  | s => some ([], s)

/-- A number after its sign. -/
def readUnsigned? (isNegative : Bool) (s : List Char) : Option (Numeral × List Char) := do
  let (whole, rest) ← wholePart s
  let (fraction, rest) ← fractionPart rest
  let (exponent, rest) ← exponentPart rest
  return ({ isNegative, whole, fraction, exponent }, rest)

/-- A number at the start of a text, and the text after it. -/
def read? : List Char → Option (Numeral × List Char)
  | '-' :: rest => readUnsigned? true rest
  | s => readUnsigned? false s

end Numeral
end TypeScribe.Json
