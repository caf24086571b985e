import SceneReel.Decimal.Layout
import SceneReel.Json.Quoted
import SceneReel.Json.Value

/-! JSON text of a value, on one line or indented. -/
namespace SceneReel.Json

open Decimal

/-- Doubles have all places where the leading digit is between `10 ^ -5` and `10 ^ 15`, and always a
point or an exponent. -/
def numberLayout : Layout where
  tie := .toEven
  isPlain lead := -5 ≤ lead && lead ≤ 15
  wholeEnding := ".0"
  exponentPlus := "+"

/-- The text of a double; JSON has none for an infinity or for NaN. -/
def writeFloat (x : Float) : String :=
  if x.isFinite then numberLayout.write x else "null"

def boolText (b : Bool) : String :=
  if b then "true" else "false"

mutual

def compact : Json → String
  | .null => "null"
  | .bool b => boolText b
  | .int n => toString n
  | .float x => writeFloat x
  | .string s => quote s
  | .array items => "[" ++ compactItems items ++ "]"
  | .object members _ => "\x7b" ++ compactMembers members ++ "\x7d"
  | .gap _ => ""

def compactItems : List Json → String
  | [] => ""
  | [v] => compact v
  | v :: vs => compact v ++ "," ++ compactItems vs

def compactMembers : List (String × Json) → String
  | [] => ""
  | [(key, v)] => quote key ++ ":" ++ compact v
  | (key, v) :: ms => quote key ++ ":" ++ compact v ++ "," ++ compactMembers ms

end

def newLine (depth : Nat) : String :=
  "\n" ++ String.ofList (List.replicate (2 * depth) ' ')

mutual

/-- The text with one item or member a line, indented by two blanks a level. -/
def pretty (depth : Nat) : Json → String
  | .array [] => "[]"
  | .array items => "[" ++ prettyItems (depth + 1) items ++ newLine depth ++ "]"
  | .object [] _ => "\x7b\x7d"
  | .object members _ => "\x7b" ++ prettyMembers (depth + 1) members ++ newLine depth ++ "\x7d"
  | .null => "null"
  | .bool b => boolText b
  | .int n => toString n
  | .float x => writeFloat x
  | .string s => quote s
  | .gap _ => ""

def prettyItems (depth : Nat) : List Json → String
  | [] => ""
  | [v] => newLine depth ++ pretty depth v
  | v :: vs => newLine depth ++ pretty depth v ++ "," ++ prettyItems depth vs

def prettyMembers (depth : Nat) : List (String × Json) → String
  | [] => ""
  | [(key, v)] => newLine depth ++ quote key ++ ": " ++ pretty depth v
  | (key, v) :: ms =>
    newLine depth ++ quote key ++ ": " ++ pretty depth v ++ "," ++ prettyMembers depth ms

end

end SceneReel.Json
