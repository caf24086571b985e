import SceneReel.Text.Numeral

/-!
Doubles read from text: an optional sign, then a word for an infinity or for NaN, or digits with an
optional point and an optional exponent. The result is the double nearest to the number written.
-/
namespace SceneReel.Decimal

open Text

inductive ReadError where
  | empty
  | invalid
  deriving DecidableEq, Repr

def ReadError.message : ReadError → String
  | .empty => "cannot parse float from empty string"
  | .invalid => "invalid float literal"

def splitDigits (cs : List Char) : List Char × List Char :=
  cs.span fun c => (digit? c).isSome

def digitsValue (cs : List Char) : Nat :=
  cs.foldl (fun n c => n * 10 + (digit? c).getD 0) 0

/-- The double nearest to `m * 10 ^ e`. Beyond the range of doubles no power of ten is built. -/
def ofDecimal (m : Nat) (e : Int) : Float :=
  let lead := e + (Nat.toDigits 10 m).length
  if m = 0 ∨ lead < -330 then 0.0
  else if 310 < lead then 1.0 / 0.0
  else Float.ofScientific m (e < 0) e.natAbs

def readExponent? (cs : List Char) : Option Int :=
  let (negative, ds) :=
    match cs with
    | '-' :: ds => (true, ds)
    | '+' :: ds => (false, ds)
    | ds => (false, ds)
  if ds.isEmpty || !ds.all fun c => (digit? c).isSome then none
  else some (if negative then -(digitsValue ds : Int) else digitsValue ds)

/-- Digits with an optional point and an optional exponent; there is a digit beside the point. -/
def readUnsigned? (cs : List Char) : Option Float :=
  let (whole, rest) := splitDigits cs
  let (fraction, rest) :=
    match rest with
    | '.' :: rest => splitDigits rest
    | rest => ([], rest)
  let exponent? :=
    match rest with
    | [] => some 0
    | c :: rest => if c = 'e' ∨ c = 'E' then readExponent? rest else none
  if whole.isEmpty && fraction.isEmpty then none
  else exponent?.map fun e => ofDecimal (digitsValue (whole ++ fraction)) (e - fraction.length)

/-- The words for values that digits cannot write, in any case of letters. -/
def readWord? (cs : List Char) : Option Float :=
  match String.ofList (cs.map Char.toLower) with
  | "inf" | "infinity" => some (1.0 / 0.0)
  | "nan" => some (0.0 / 0.0)
  | _ => none

def readFloat (cs : List Char) : Except ReadError Float :=
  let magnitude? (cs : List Char) := (readWord? cs).orElse fun _ => readUnsigned? cs
  let value? :=
    match cs with
    | '-' :: cs => (magnitude? cs).map (- ·)
    | '+' :: cs => magnitude? cs
    | cs => magnitude? cs
  match cs, value? with
  | [], _ => .error .empty
  | _, none => .error .invalid
  | _, some x => .ok x

end SceneReel.Decimal
