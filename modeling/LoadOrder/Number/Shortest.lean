import LoadOrder.Number.Binary64

/-!
# The shortest decimal of a double

Of the decimals that round to a given double, the one with the fewest digits; of those with the
fewest digits, the one nearest to the double.  The candidates with `n` digits are the two
neighbours of the double on the grid of `n`-digit decimals.
-/

namespace LoadOrder

/-- A decimal number: `digits * 10 ^ exponent`. -/
structure Decimal where
  digits : Nat
  exponent : Int
  deriving DecidableEq, Repr

namespace Decimal

/-- Drops zeros at the end; at most `fuel` of them. -/
def stripZeros : Nat → Decimal → Decimal
  | 0, d => d
  | fuel + 1, d =>
    if d.digits ≠ 0 ∧ d.digits % 10 = 0 then stripZeros fuel ⟨d.digits / 10, d.exponent + 1⟩ else d

end Decimal

namespace Binary64

/-- The largest `e` at or above a first guess, with at most `fuel` steps, for which
`10 ^ e ≤ num / den`. -/
def climbLog10 (num den : Nat) : Nat → Int → Int
  | 0, e => e
  | fuel + 1, e =>
    let (p, q) := powRatio 10 (e + 1)
    if den * p ≤ num * q then climbLog10 num den fuel (e + 1) else e

/-- The largest `e` with `10 ^ e ≤ num / den`.  The guess from the binary logarithm is at most
two too small. -/
def floorLog10 (num den : Nat) : Int :=
  climbLog10 num den 3 (Int.fdiv (floorLog2 num den * 30103) 100000 - 1)

/-- The reals that round to `x` lie between `x - below` and `x + 2`, in quarters of the last
place of `x`. -/
def quartersBelow (x : Binary64) : Nat :=
  if x.mantissa = Nat.pow 2 52 ∧ -1074 < x.exponent then 1 else 2

/-- Does `c * 10 ^ t` round to `x`?  The end points round to the even mantissa. -/
def roundsTo (x : Binary64) (c : Nat) (t : Int) : Bool :=
  let (p, q) := powRatio 2 (x.exponent - 2)
  let (a, b) := powRatio 10 t
  let lo := (4 * x.mantissa - x.quartersBelow) * p * b
  let hi := (4 * x.mantissa + 2) * p * b
  let v := c * a * q
  if x.mantissa % 2 = 0 then lo ≤ v && v ≤ hi else lo < v && v < hi

/-- The nearest decimal `c * 10 ^ t` that rounds to `x`, if one of the two neighbours of `x` on
that grid does. -/
def onGrid? (x : Binary64) (t : Int) : Option Decimal :=
  let (p, q) := powRatio 2 x.exponent
  let (a, b) := powRatio 10 t
  let num := x.mantissa * p * b
  let den := q * a
  let near := roundDiv num den
  let below := num / den
  let far := if near = below then below + 1 else below
  if x.roundsTo near t then some ⟨near, t⟩
  else if x.roundsTo far t then some ⟨far, t⟩
  else none

/-- Tries `17 - fuel` digits and more. -/
def shortestFrom (x : Binary64) (e : Int) : Nat → Decimal
  | 0 => (x.onGrid? (e - 16)).getD ⟨x.mantissa, x.exponent⟩
  | fuel + 1 =>
    match x.onGrid? (e - 15 + fuel) with
    | some d => d
    | none => shortestFrom x e fuel

/-- The shortest decimal that rounds to a positive `x`, without zeros at its end. -/
def shortest (x : Binary64) : Decimal :=
  let (p, q) := powRatio 2 x.exponent
  Decimal.stripZeros 20 (x.shortestFrom (floorLog10 (x.mantissa * p) q) 16)

end Binary64

end LoadOrder
