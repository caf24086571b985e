import SceneReel.Decimal.Shortest

/-! How a decimal is written down: with all its places, or as a leading digit and an exponent. -/
namespace SceneReel.Decimal

/-- The choices of a number format. -/
structure Layout where
  /-- Which of two shortest decimals at the same distance is written. -/
  tie : Tie
  /-- Whether a number with this leading exponent is written with all its places. -/
  isPlain : Int → Bool
  /-- What a whole number written with all its places ends in. -/
  wholeEnding : String
  /-- What stands before an exponent that is not negative. -/
  exponentPlus : String

def zeros (n : Nat) : String :=
  String.ofList (List.replicate n '0')

/-- Digits with a point after the first `places` of them. -/
def pointAfter (places : Nat) (digits : List Char) : String :=
  String.ofList (digits.take places) ++ "." ++ String.ofList (digits.drop places)

/-- All places of the number whose digits start at the power `lead` of ten. -/
def Layout.plain (layout : Layout) (digits : List Char) (lead : Int) : String :=
  if lead < 0 then "0." ++ zeros (-lead - 1).toNat ++ String.ofList digits
  else
    let whole := lead.toNat + 1
    if digits.length ≤ whole then
      String.ofList digits ++ zeros (whole - digits.length) ++ layout.wholeEnding
    else pointAfter whole digits

/-- The leading digit, the others behind a point, and the exponent. -/
def Layout.exponential (layout : Layout) (digits : List Char) (lead : Int) : String :=
  let mantissa := if digits.length ≤ 1 then String.ofList digits else pointAfter 1 digits
  mantissa ++ "e" ++ (if lead < 0 then "" else layout.exponentPlus) ++ toString lead

def Layout.writeFinite (layout : Layout) (m : Nat) (q : Int) : String :=
  let d := shortest layout.tie m q
  let digits := Nat.toDigits 10 d.digits
  let lead := d.exponent + digits.length - 1
  if layout.isPlain lead then layout.plain digits lead else layout.exponential digits lead

def Layout.write (layout : Layout) (x : Float) : String :=
  let sign := if isNegative x then "-" else ""
  match magnitude x with
  | .finite m q => sign ++ layout.writeFinite m q
  | .infinite => sign ++ "inf"
  | .notANumber => "NaN"

end SceneReel.Decimal
