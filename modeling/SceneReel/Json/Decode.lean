import SceneReel.Text.Numeral
import SceneReel.Text.Printable
import SceneReel.Json.Printer
import SceneReel.Json.Reader

/-!
Typed data read from JSON values: the simple kinds, lists, and records with named fields. Of several
faults the first in the order of the text is reported.
-/
namespace SceneReel.Json

open Text

inductive DecodeError where
  /-- The text is not JSON, or holds something that no value can stand for. -/
  | malformed
  | missingField (name : String)
  | duplicateField (name : String)
  /-- A value of another kind was expected. -/
  | invalidType (seen expected : String)
  /-- The kind is right, and the value is out of range. -/
  | invalidValue (seen expected : String)
  /-- An array has too few items for a record, or too many. -/
  | invalidLength (found : Nat) (expected : String)
  /-- The value is none of the kinds that a choice allows. -/
  | noVariant (choice : String)
  /-- A text does not spell the number expected. -/
  | numeral (cause : NumeralError)
  deriving DecidableEq, Repr

def DecodeError.describe : DecodeError → String
  | .malformed => "malformed JSON"
  | .missingField name => s!"missing field `{name}`"
  | .duplicateField name => s!"duplicate field `{name}`"
  | .invalidType seen expected => s!"invalid type: {seen}, expected {expected}"
  | .invalidValue seen expected => s!"invalid value: {seen}, expected {expected}"
  | .invalidLength found expected => s!"invalid length {found}, expected {expected}"
  | .noVariant choice => s!"data did not match any variant of untagged enum {choice}"
  | .numeral cause => cause.message

abbrev Decoder (α : Type) := Json → Except DecodeError α

def seen? : Json → Option String
  | .null => some "null"
  | .bool b => some s!"boolean `{boolText b}`"
  | .int n => some s!"integer `{n}`"
  | .float x => some s!"floating point `{writeFloat x}`"
  | .string s => some s!"string {showQuoted s}"
  | .array _ => some "sequence"
  | .object _ _ => some "map"
  | .gap _ => none

def mismatch (v : Json) (expected : String) : DecodeError :=
  match v.seen? with
  | none => .malformed
  | some seen => .invalidType seen expected

def decodeString : Decoder String
  | .string s => .ok s
  | v => .error (v.mismatch "a string")

def decodeBool : Decoder Bool
  | .bool b => .ok b
  | v => .error (v.mismatch "a boolean")

/-- A double, for which an integer may stand. -/
def decodeFloat : Decoder Float
  | .float x => .ok x
  | .int n => .ok (Float.ofInt n)
  | v => .error (v.mismatch "f64")

def decodeSize : Decoder Nat
  | .int n =>
    if n < 0 then .error (.invalidValue s!"integer `{n}`" "usize") else .ok n.toNat
  | v => .error (v.mismatch "usize")

def decodeList {α : Type} (decode : Decoder α) : Decoder (List α)
  | .array items => items.mapM decode
  | v => .error (v.mismatch "a sequence")

def decodeOption {α : Type} (decode : Decoder α) : Decoder (Option α)
  | .null => .ok none
  | v => (decode v).map some

/-- A named field of records of type `σ`: what its value does to the record read so far. -/
structure Field (σ : Type) where
  name : String
  required : Bool
  decode : Json → σ → Except DecodeError σ

def Field.optional {σ α : Type} (name : String) (decode : Decoder α) (set : α → σ → σ) : Field σ :=
  ⟨name, false, fun v s => (decode v).map (set · s)⟩

def Field.mandatory {σ α : Type} (name : String) (decode : Decoder α) (set : α → σ → σ) : Field σ :=
  ⟨name, true, fun v s => (decode v).map (set · s)⟩

/-- How records of type `σ` are read: from an object by name, or from an array by position. -/
structure Record (σ : Type) where
  name : String
  fields : List (Field σ)
  /-- The record before any field is read. -/
  blank : σ
  /-- The value was read in full beforehand, and surplus items are counted. -/
  buffered : Bool := false

variable {σ : Type}

/-- The fields set by the members of an object, and the names met on the way. -/
def Record.decodeMembers (r : Record σ) (names : List String) (s : σ) :
    List (String × Json) → Except DecodeError (List String × σ)
  | [] => .ok (names, s)
  | (key, v) :: ms =>
    match r.fields.find? (·.name == key) with
    | none => if v.isSkippable then r.decodeMembers names s ms else .error .malformed
    | some field =>
      if names.contains key then .error (.duplicateField key)
      else
        match field.decode v s with
        | .error e => .error e
        | .ok s => r.decodeMembers (key :: names) s ms

/-- The record, provided that every mandatory field is among the names met. -/
def Record.complete (r : Record σ) (names : List String) (s : σ) : Except DecodeError σ :=
  match r.fields.find? fun field => field.required && !names.contains field.name with
  | some field => .error (.missingField field.name)
  | none => .ok s

/-- What is said of an array with more items than the record has fields. -/
def Record.surplus (r : Record σ) (found : Nat) : DecodeError :=
  let n := r.fields.length
  if r.buffered then
    .invalidLength found (if n = 1 then "1 element in sequence" else s!"{n} elements in sequence")
  else .malformed

def Record.decodeItems (r : Record σ) (index : Nat) (s : σ) :
    List (Field σ) → List Json → Except DecodeError σ
  | [], [] => .ok s
  | [], items => .error (r.surplus (index + items.length))
  | field :: fields, [] =>
    if field.required then
      .error (.invalidLength index s!"struct {r.name} with {r.fields.length} elements")
    else r.decodeItems (index + 1) s fields []
  | field :: fields, v :: items =>
    match field.decode v s with
    | .error e => .error e
    | .ok s => r.decodeItems (index + 1) s fields items

def Record.decode (r : Record σ) : Decoder σ
  | .object members cut =>
    match r.decodeMembers [] r.blank members with
    | .error e => .error e
    | .ok (names, s) => if cut.isSome then .error .malformed else r.complete names s
  | .array items => r.decodeItems 0 r.blank r.fields items
  | v => .error (v.mismatch s!"struct {r.name}")

def decodeText {α : Type} (decode : Decoder α) (s : String) : Except DecodeError α :=
  let reading := read s
  match decode reading.value with
  | .error e => .error e
  | .ok x => if reading.hasMore then .error .malformed else .ok x

end SceneReel.Json
