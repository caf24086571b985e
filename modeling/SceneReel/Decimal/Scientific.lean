import SceneReel.Decimal.Layout

/-!
Doubles in scientific notation with a fixed number of places, rounded from their exact value with
ties to the even neighbour.
-/
namespace SceneReel.Decimal

/-- The quotient of two numbers rounded to the nearest whole, a half to the even one. -/
def divideToNearest (num den : Nat) : Nat :=
  let lower := num / den
  if Tie.toEven.takesUpper (2 * (num % den)) den lower then lower + 1 else lower

def scientificFinite (places m : Nat) (q : Int) : String :=
  if m = 0 then pointAfter 1 (List.replicate (places + 1) '0') ++ "e0"
  else
    let lead := leadingExponent m q
    let (num, den) := inUnitsOf (lead - places) m q
    let digits := divideToNearest num den
    if digits < Nat.pow 10 (places + 1) then pointAfter 1 (Nat.toDigits 10 digits) ++ "e" ++ toString lead
    else pointAfter 1 (Nat.toDigits 10 (digits / 10)) ++ "e" ++ toString (lead + 1)

/-- A double in scientific notation with `places` places, for `places` at least one. -/
def scientific (places : Nat) (x : Float) : String :=
  let sign := if isNegative x then "-" else ""
  match magnitude x with
  | .finite m q => sign ++ scientificFinite places m q
  | .infinite => sign ++ "inf"
  | .notANumber => "NaN"

end SceneReel.Decimal
