/-!
# Double precision numbers, by exact arithmetic

A finite nonnegative double is a mantissa below `2 ^ 53` times a power of two.  Every operation
takes the exact rational result and rounds it once, to nearest with ties to even
(`Binary64.ofRatio`), so the arithmetic is that of the binary64 format without any use of the
machine's floating point.
-/

namespace LoadOrder

/-- The quotient rounded to nearest; a tie goes to the even neighbour. -/
def roundDiv (num den : Nat) : Nat :=
  let q := num / den
  let r := num % den
  if 2 * r < den then q
  else if den < 2 * r then q + 1
  else if q % 2 = 0 then q else q + 1

/-- The number `mantissa * 2 ^ exponent`. -/
structure Binary64 where
  mantissa : Nat
  exponent : Int
  deriving DecidableEq, Repr

namespace Binary64

/-- The power `b ^ e` as a numerator and a denominator. -/
def powRatio (b : Nat) (e : Int) : Nat × Nat := (Nat.pow b e.toNat, Nat.pow b (-e).toNat)

/-- The largest `k` with `2 ^ k ≤ num / den`, for positive `num` and `den`. -/
def floorLog2 (num den : Nat) : Int :=
  let k : Int := (num.log2 : Int) - (den.log2 : Int)
  let (p, q) := powRatio 2 k
  if num * q < den * p then k - 1 else k

def zero : Binary64 := ⟨0, -1074⟩

def isZero (x : Binary64) : Bool := x.mantissa == 0

/-- The double nearest to `num / den`; none if that is beyond the largest one. -/
def ofRatio (num den : Nat) : Option Binary64 :=
  if num = 0 then some zero
  else
    let e := max (floorLog2 num den - 52) (-1074)
    let (p, q) := powRatio 2 e
    let m := roundDiv (num * q) (den * p)
    let x : Binary64 := if m = Nat.pow 2 53 then ⟨Nat.pow 2 52, e + 1⟩ else ⟨m, e⟩
    if 971 < x.exponent then none else some x

/-- The double nearest to a natural number. -/
def ofNat (n : Nat) : Option Binary64 := ofRatio n 1

/-- The product, rounded. -/
def mul (x y : Binary64) : Option Binary64 :=
  let (p, q) := powRatio 2 (x.exponent + y.exponent)
  ofRatio (x.mantissa * y.mantissa * p) q

/-- The quotient, rounded. -/
def div (x y : Binary64) : Option Binary64 :=
  let (p, q) := powRatio 2 (x.exponent - y.exponent)
  ofRatio (x.mantissa * p) (y.mantissa * q)

/-- The double nearest to `10 ^ k`. -/
def pow10 (k : Nat) : Option Binary64 := ofNat (Nat.pow 10 k)

end Binary64

end LoadOrder
