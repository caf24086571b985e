/-!
Exact values of doubles: a finite double is a natural number times a power of two, and its position
among the powers of ten follows by integer arithmetic.
-/
namespace SceneReel.Decimal

inductive Magnitude where
  /-- The number `mantissa * 2 ^ exponent`. -/
  | finite (mantissa : Nat) (exponent : Int)
  | infinite
  | notANumber
  deriving DecidableEq, Repr

/-- The sign bit is set; for a number that is not NaN, it is negative or the negative zero. -/
def isNegative (x : Float) : Bool :=
  x.toBits >>> 63 == 1

/-- The leading bit of a mantissa of 53 bits; the bits of a double leave it out. -/
def leadingBit : Nat := 0x10000000000000

def magnitude (x : Float) : Magnitude :=
  let biased := ((x.toBits >>> 52) &&& 0x7FF).toNat
  let fraction := (x.toBits &&& 0xFFFFFFFFFFFFF).toNat
  if biased = 0 then .finite fraction (-1074)
  else if biased = 0x7FF then if fraction = 0 then .infinite else .notANumber
  else .finite (leadingBit + fraction) (biased - 1075)

/-- The quotient of `m * 2 ^ q` by `10 ^ k`, as a numerator and a denominator. -/
def inUnitsOf (k : Int) (m : Nat) (q : Int) : Nat × Nat :=
  (m * Nat.pow 2 q.toNat * Nat.pow 10 (-k).toNat, Nat.pow 2 (-q).toNat * Nat.pow 10 k.toNat)

/-- A power of ten above `m * 2 ^ q`, and at most a factor of a hundred above. -/
def ceilingExponent (m : Nat) (q : Int) : Int :=
  (((m.log2 : Int) + q + 1) * 30103).fdiv 100000 + 1

/-- The exponent of the leading decimal digit of `m * 2 ^ q`, for positive `m`. -/
def leadingExponent (m : Nat) (q : Int) : Int :=
  let k := ceilingExponent m q
  let (num, den) := inUnitsOf (k - 1) m q
  if den ≤ num then k - 1 else k - 2

end SceneReel.Decimal
