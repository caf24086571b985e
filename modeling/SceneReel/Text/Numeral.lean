/-!
Unsigned decimal numerals below a limit: an optional plus sign and ASCII digits, nothing else.
-/
namespace SceneReel.Text

inductive NumeralError where
  /-- There is no character at all. -/
  | empty
  /-- Something other than a digit stands where a digit has to. -/
  | invalidDigit
  /-- The digits read so far already reach the limit. -/
  | tooLarge
  deriving DecidableEq, Repr

def NumeralError.message : NumeralError → String
  | .empty => "cannot parse integer from empty string"
  | .invalidDigit => "invalid digit found in string"
  | .tooLarge => "number too large to fit in target type"

def digit? (c : Char) : Option Nat :=
  if '0' ≤ c ∧ c ≤ '9' then some (c.toNat - '0'.toNat) else none

/-- Continues the numeral `value` with more digits; the first fault in reading order counts. -/
def readDigits (limit value : Nat) : List Char → Except NumeralError Nat
  | [] => .ok value
  | c :: cs =>
    match digit? c with
    | none => .error .invalidDigit
    | some d =>
      if value * 10 + d < limit then readDigits limit (value * 10 + d) cs else .error .tooLarge

/-- Reads a numeral below `limit`: an optional plus sign and at least one digit. -/
def readNumeral (limit : Nat) : List Char → Except NumeralError Nat
  | [] => .error .empty
  | ['+'] => .error .invalidDigit
  | '+' :: cs => readDigits limit 0 cs
  | cs => readDigits limit 0 cs

end SceneReel.Text
