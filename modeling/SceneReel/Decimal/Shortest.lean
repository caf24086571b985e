import SceneReel.Decimal.Binary

/-!
The shortest decimal of a double: the fewest digits that read back as the same double, and of those
the nearest to it. The grids of multiples of powers of ten are tried from the coarsest on.
-/
namespace SceneReel.Decimal

/-- The number `digits * 10 ^ exponent`. -/
structure Scaled where
  digits : Nat
  exponent : Int
  deriving DecidableEq, Repr

inductive Tie where
  | toEven
  | up
  deriving DecidableEq, Repr

/-- Whether the upper of two neighbours on a grid is taken, given twice the distance to the lower one. -/
def Tie.takesUpper (tie : Tie) (twice width lower : Nat) : Bool :=
  match compare twice width with
  | .lt => false
  | .gt => true
  | .eq =>
    match tie with
    | .toEven => lower % 2 == 1
    | .up => true

/-- The reals that round to a double, in quarters of its last binary place. -/
structure Cell where
  low : Nat
  centre : Nat
  high : Nat
  /-- The two ends round to the double as well. -/
  closed : Bool

/-- The cell of `m * 2 ^ q`. Below a power of two the doubles lie twice as dense. -/
def Cell.of (m : Nat) (q : Int) : Cell where
  low := 4 * m - if m = leadingBit ∧ -1074 < q then 1 else 2
  centre := 4 * m
  high := 4 * m + 2
  closed := m % 2 == 0

def Cell.within (cell : Cell) (a b : Nat) : Bool :=
  a < b || (cell.closed && a == b)

/-- The multiple of `10 ^ k` in the cell that is nearest to its centre, if there is one. -/
def Cell.onGrid? (cell : Cell) (q : Int) (tie : Tie) (k : Int) : Option Nat :=
  let (unit, den) := inUnitsOf k 1 (q - 2)
  let lower := cell.centre * unit / den
  let lowerFits := cell.within (cell.low * unit) (lower * den)
  let upperFits := cell.within ((lower + 1) * den) (cell.high * unit)
  if lowerFits && upperFits then
    some (if tie.takesUpper (2 * (cell.centre * unit % den)) den lower then lower + 1 else lower)
  else if lowerFits then some lower
  else if upperFits then some (lower + 1)
  else none

/-- The first grid with a point in the cell, trying `10 ^ k`, `10 ^ (k - 1)` and so on. -/
def Cell.firstHit (cell : Cell) (q : Int) (tie : Tie) : Nat → Int → Scaled
  | 0, k => ⟨0, k⟩
  | tries + 1, k =>
    match cell.onGrid? q tie k with
    | some digits => ⟨digits, k⟩
    | none => cell.firstHit q tie tries (k - 1)

/-- The shortest decimal of `m * 2 ^ q`; seventeen digits always suffice. -/
def shortest (tie : Tie) (m : Nat) (q : Int) : Scaled :=
  if m = 0 then ⟨0, 0⟩ else (Cell.of m q).firstHit q tie 20 (ceilingExponent m q)

end SceneReel.Decimal
