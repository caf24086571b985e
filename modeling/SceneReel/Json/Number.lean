import SceneReel.Decimal.Reading
import SceneReel.Json.Value

/-!
Numbers in JSON text. Integers of 64 bits keep their value. Any other number is the product of a
significand of at most 64 bits, its surplus digits dropped, and a power of ten, with one rounding for
each of the two.
-/
namespace SceneReel.Json

open Text Decimal

/-- A number split at its point and its exponent mark, of which each may be absent. -/
structure NumberText where
  negative : Bool
  whole : List Char
  fraction? : Option (List Char)
  exponent? : Option Int

def NumberText.isInteger (t : NumberText) : Bool :=
  t.fraction?.isNone && t.exponent?.isNone

/-- Moves digits into the significand as long as it takes no more than 64 bits; also counts them. -/
def absorb (significand : Nat) : List Char → Nat × Nat
  | [] => (significand, 0)
  | c :: cs =>
    let next := significand * 10 + (digit? c).getD 0
    if next < UInt64.size then
      let (s, n) := absorb next cs
      (s, n + 1)
    else (significand, 0)

def scaleByTen? (x : Float) (e : Int) : Option Float :=
  let power (n : Nat) := Float.ofScientific 1 false n
  if 308 < e then if x == 0.0 then some x else none
  else if 0 ≤ e then
    let y := x * power e.toNat
    if y.isInf then none else some y
  else if -308 ≤ e then some (x / power (-e).toNat)
  else if -616 ≤ e then some (x / power 308 / power (-e - 308).toNat)
  else some 0.0

/-- The value as a double, rounded twice. -/
def NumberText.toFloat? (t : NumberText) : Option Float :=
  let (s, n) := absorb 0 t.whole
  let (s, f) := absorb s (t.fraction?.getD [])
  let e := t.exponent?.getD 0 + (t.whole.length - n : Int) - f
  (scaleByTen? (Float.ofNat s) e).map fun x => if t.negative then -x else x

/-- The value of a number: an integer where 64 bits hold it, and the negative zero a double. -/
def NumberText.value (t : NumberText) : Json :=
  let n := digitsValue t.whole
  if t.isInteger && !t.negative && n < UInt64.size then .int n
  else if t.isInteger && t.negative && 0 < n && n ≤ UInt64.size / 2 then .int (-n)
  else
    match t.toFloat? with
    | some x => .float x
    | none => .gap .unreadable

/-- The whole part: a zero on its own, or digits that do not start with one. -/
def splitWhole? (cs : List Char) : Option (List Char × List Char) :=
  match splitDigits cs with
  | ([], _) => none
  | ('0' :: _ :: _, _) => none
  | (whole, rest) => some (whole, rest)

/-- The fraction behind a point, if there is a point; then it has a digit. -/
def splitFraction? : List Char → Option (Option (List Char) × List Char)
  | '.' :: cs =>
    match splitDigits cs with
    | ([], _) => none
    | (fraction, rest) => some (some fraction, rest)
  | cs => some (none, cs)

def splitPower? (negative : Bool) (cs : List Char) : Option (Option Int × List Char) :=
  match splitDigits cs with
  | ([], _) => none
  | (ds, rest) => some (some (if negative then -(digitsValue ds : Int) else digitsValue ds), rest)

def splitExponent? : List Char → Option (Option Int × List Char)
  | 'e' :: '-' :: rest | 'E' :: '-' :: rest => splitPower? true rest
  | 'e' :: '+' :: rest | 'E' :: '+' :: rest => splitPower? false rest
  | 'e' :: rest | 'E' :: rest => splitPower? false rest
  | rest => some (none, rest)

def splitNumber? (cs : List Char) : Option (NumberText × List Char) := do
  let (negative, cs) :=
    match cs with
    | '-' :: cs => (true, cs)
    | cs => (false, cs)
  let (whole, cs) ← splitWhole? cs
  let (fraction?, cs) ← splitFraction? cs
  let (exponent?, cs) ← splitExponent? cs
  pure (⟨negative, whole, fraction?, exponent?⟩, cs)

end SceneReel.Json
