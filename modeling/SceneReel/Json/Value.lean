/-!
JSON values. A value read from text also records where the text cannot be read, so that a consumer
meets the faults of a document in the order in which the text has them.
-/
namespace SceneReel

inductive Json.Fault where
  /-- Well formed, but without a value: it may be skipped and not read. -/
  | unreadable
  /-- From here on the text is not JSON. -/
  | broken
  deriving DecidableEq, Repr

/-- A JSON value, or as much of one as its text holds. -/
inductive Json where
  | null
  | bool (b : Bool)
  | int (n : Int)
  | float (x : Float)
  | string (s : String)
  | array (items : List Json)
  /-- Members in order. A `cut` tells that the key after the last one is at fault. -/
  | object (members : List (String × Json)) (cut : Option Json.Fault := none)
  /-- A place without a value. -/
  | gap (fault : Json.Fault)

namespace Json

def Fault.worse : Option Fault → Option Fault → Option Fault
  | some .broken, _ => some .broken
  | _, some .broken => some .broken
  | none, f => f
  | f, none => f
  | some .unreadable, some .unreadable => some .unreadable

mutual

/-- The gravest fault anywhere in a value. -/
def fault? : Json → Option Fault
  | .array items => faultOfItems items
  | .object members cut => Fault.worse (faultOfMembers members) cut
  | .gap fault => some fault
  | .null | .bool _ | .int _ | .float _ | .string _ => none

def faultOfItems : List Json → Option Fault
  | [] => none
  | v :: vs => Fault.worse (fault? v) (faultOfItems vs)

def faultOfMembers : List (String × Json) → Option Fault
  | [] => none
  | (_, v) :: ms => Fault.worse (fault? v) (faultOfMembers ms)

end

def isSkippable (v : Json) : Bool :=
  v.fault? != some .broken

def isReadable (v : Json) : Bool :=
  v.fault?.isNone

end Json

end SceneReel
