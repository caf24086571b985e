import SceneReel.Json.Token

/-!
Values read from JSON text. Reading never fails: a fault in the text becomes a fault in the value.
Values nested in more than `depthLimit` containers can be skipped and not read.
-/
namespace SceneReel.Json

/-- How many containers a value may be nested in and still be read. -/
def depthLimit : Nat := 127

/-- A container that `depth` containers enclose, as far as it can be read. -/
def enclosed (depth : Nat) (v : Json) : Json :=
  if depth < depthLimit then v
  else if v.isSkippable then .gap .unreadable
  else .gap .broken

mutual

/-- The value at the start of the tokens, and the rest unless the text breaks off in the value. -/
def readValue : Nat → Nat → List Token → Json × Option (List Token)
  | 0, _, _ => (.gap .broken, none)
  | fuel + 1, depth, ts =>
    match ts with
    | .atom v :: ts => (v, some ts)
    | .string (some s) :: ts => (.string s, some ts)
    | .string none :: ts => (.gap .unreadable, some ts)
    | .openArray :: .closeArray :: ts => (enclosed depth (.array []), some ts)
    | .openArray :: ts =>
      let (items, rest?) := readItems fuel (depth + 1) ts
      (enclosed depth (.array items), rest?)
    | .openObject :: .closeObject :: ts => (enclosed depth (.object []), some ts)
    | .openObject :: ts =>
      let (members, cut, rest?) := readMembers fuel (depth + 1) ts
      (enclosed depth (.object members cut), rest?)
    | _ => (.gap .broken, none)

def readItems : Nat → Nat → List Token → List Json × Option (List Token)
  | 0, _, _ => ([.gap .broken], none)
  | fuel + 1, depth, ts =>
    match readValue fuel depth ts with
    | (v, none) => ([v], none)
    | (v, some (.closeArray :: ts)) => ([v], some ts)
    | (v, some (.comma :: ts)) =>
      let (items, rest?) := readItems fuel depth ts
      (v :: items, rest?)
    | (v, some _) => ([v, .gap .broken], none)

/-- The members up to the end of their object, or up to the first key at fault. -/
def readMembers : Nat → Nat → List Token →
    List (String × Json) × Option Fault × Option (List Token)
  | 0, _, _ => ([], some .broken, none)
  | fuel + 1, depth, ts =>
    match ts with
    | .string key? :: .colon :: ts =>
      let (v, rest?) := readValue fuel depth ts
      let (members, cut, rest?) :=
        match rest? with
        | none => ([], none, none)
        | some (.closeObject :: ts) => ([], none, some ts)
        | some (.comma :: ts) => readMembers fuel depth ts
        | some _ => ([], some .broken, none)
      match key? with
      | some key => ((key, v) :: members, cut, rest?)
      | none => ([], Fault.worse (some .unreadable) (Json.object (("", v) :: members) cut).fault?, rest?)
    | .string (some key) :: _ => ([(key, .gap .broken)], none, none)
    | _ => ([], some .broken, none)

end

structure Reading where
  value : Json
  hasMore : Bool

/-- Reads a text. Every step takes a token or descends into one value. -/
def read (s : String) : Reading :=
  let tokens := Token.scan s.toList
  match readValue (2 * tokens.length + 1) 0 tokens with
  | (v, some []) => ⟨v, false⟩
  | (v, _) => ⟨v, true⟩

end SceneReel.Json
