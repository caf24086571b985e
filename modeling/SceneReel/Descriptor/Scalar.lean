import SceneReel.Ids
import SceneReel.Json.Decode

/-!
Scalars of exported documents. The same field may come as a string, a number or a truth value, and is
kept as text.
-/
namespace SceneReel.Descriptor

open Json

/-- Doubles kept as text have all their places, and no point if they are whole; a half goes up. -/
def scalarLayout : Decimal.Layout where
  tie := .up
  isPlain _ := true
  wholeEnding := ""
  exponentPlus := ""

/-- The text of an integer. One that takes more than 63 bits and a sign is kept as a double. -/
def integerText (n : Int) : String :=
  if n ≤ Int64.maxValue.toInt then toString n else scalarLayout.write (Float.ofInt n)

def scalarText? : Json → Option String
  | .string s => some s
  | .int n => some (integerText n)
  | .float x => some (scalarLayout.write x)
  | .bool b => some (boolText b)
  | .null | .array _ | .object _ _ | .gap _ => none

def decodeScalar : Decoder String := fun v =>
  if v.isReadable then
    match scalarText? v with
    | some s => .ok s
    | none => .error (.noVariant "Scalar")
  else .error .malformed

/-- Reads a scalar that only counts when it is a string; any other one reads as absent. -/
def decodeStringOnly : Decoder (Option String) := fun v =>
  match v with
  | .null => .ok none
  | .string s => .ok (some s)
  | v => (decodeScalar v).map fun _ => none

def decodeWord : Decoder UInt32 := fun v =>
  match decodeScalar v with
  | .error e => .error e
  | .ok s => (readWord s).mapError .numeral

def optionalMember (name : String) (value : Option String) : List (String × Json) :=
  match value with
  | none => []
  | some s => [(name, .string s)]

end SceneReel.Descriptor
