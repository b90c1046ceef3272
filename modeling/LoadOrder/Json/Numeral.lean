import LoadOrder.Json.Value

/-!
# From numerals to numbers

A numeral of a JSON text is a sign, digits, and perhaps a fraction and an exponent.  One without
fraction and exponent that fits in 64 bits (and is not `-0`) is an integer.  Any other is read as
a double: its leading digits, as many as fit in 64 unsigned bits, are scaled by the power of ten
that the remaining digits and the exponent ask for, with one rounding for each operation.
-/

namespace LoadOrder

/-- The parts of a numeral, digits most significant first. -/
structure Numeral where
  negative : Bool := false
  whole : List Char := []
  fraction : Option (List Char) := none
  exponent : Option (Bool × List Char) := none
  deriving DecidableEq

namespace Numeral

def digitValue (c : Char) : Nat := c.toNat - '0'.toNat

/-- The largest significand. -/
def maxSignificand : Nat := Nat.pow 2 64 - 1

/-- The largest exponent that is read; a longer one is beyond every double. -/
def maxExponent : Nat := Nat.pow 2 31 - 1

/-- Appends digits to a significand as long as it stays in range; what did not fit is left. -/
def absorb (significand : Nat) : List Char → Nat × List Char
  | [] => (significand, [])
  | c :: rest =>
    let next := 10 * significand + digitValue c
    if next ≤ maxSignificand then absorb next rest else (significand, c :: rest)

/-- The value of an exponent's digits; none beyond the limit. -/
def exponentValue : Nat → List Char → Option Nat
  | value, [] => some value
  | value, c :: rest =>
    let next := 10 * value + digitValue c
    if next ≤ maxExponent then exponentValue next rest else none

/-- The product `x * 10 ^ e`, where a power beyond the largest is divided off in steps; none if the
result is beyond the largest double. -/
def scale (x : Binary64) (e : Int) : Option Binary64 :=
  if e < -308 then
    if x.isZero then some x
    else (Binary64.pow10 308).bind fun p => (x.div p).bind fun y => scale y (e + 308)
  else if e < 0 then (Binary64.pow10 (-e).toNat).bind fun p => x.div p
  else if e ≤ 308 then (Binary64.pow10 e.toNat).bind fun p => x.mul p
  else if x.isZero then some x
  else none
termination_by (-e).toNat
decreasing_by omega

/-- The double that a numeral stands for; none if it is out of range. -/
def magnitude (n : Numeral) : Option Binary64 :=
  let (significand, beyond) := absorb 0 n.whole
  let fraction := n.fraction.getD []
  let (significand, dropped) := absorb significand fraction
  let place : Int := (beyond.length : Int) - ((fraction.length - dropped.length : Nat) : Int)
  match n.exponent with
  | none => (Binary64.ofNat significand).bind fun x => scale x place
  | some (negative, digits) =>
    match exponentValue 0 digits with
    | some e =>
      (Binary64.ofNat significand).bind fun x => scale x (if negative then place - e else place + e)
    | none => if significand ≠ 0 ∧ ¬ negative then none else some .zero

/-- The value of the digits before the point. -/
def wholeValue (n : Numeral) : Nat := n.whole.foldl (fun v c => 10 * v + digitValue c) 0

/-- The number that a numeral stands for; none if it is out of range. -/
def toNumber? (n : Numeral) : Option JsonNumber :=
  let double := n.magnitude.map (JsonNumber.double n.negative)
  if n.fraction.isSome || n.exponent.isSome then double
  else if n.negative then
    if n.wholeValue = 0 ∨ Nat.pow 2 63 < n.wholeValue then double
    else some (.integer (-(n.wholeValue : Int)))
  else if n.wholeValue ≤ maxSignificand then some (.integer n.wholeValue)
  else double

end Numeral

end LoadOrder
