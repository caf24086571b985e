import SceneReel.Json.Number
import SceneReel.Json.Quoted

/-! The tokens of JSON text. -/
namespace SceneReel.Json

inductive Token where
  | openArray
  | closeArray
  | openObject
  | closeObject
  | comma
  | colon
  /-- A string, unless its escapes hold a surrogate without its partner. -/
  | string (s : Option String)
  /-- A number or one of the words. -/
  | atom (v : Json)
  /-- Text that starts no token. Nothing follows it. -/
  | stray

def isSpace (c : Char) : Bool :=
  c == ' ' || c == '\n' || c == '\t' || c == '\r'

def Token.split? : List Char → Option (Token × List Char)
  | '[' :: rest => some (.openArray, rest)
  | ']' :: rest => some (.closeArray, rest)
  | '\x7b' :: rest => some (.openObject, rest)
  | '\x7d' :: rest => some (.closeObject, rest)
  | ',' :: rest => some (.comma, rest)
  | ':' :: rest => some (.colon, rest)
  | '"' :: rest => do
    let (pieces, rest) ← splitQuoted? rest
    pure (.string ((charsOfPieces? pieces).map String.ofList), rest)
  | 'n' :: 'u' :: 'l' :: 'l' :: rest => some (.atom .null, rest)
  | 't' :: 'r' :: 'u' :: 'e' :: rest => some (.atom (.bool true), rest)
  | 'f' :: 'a' :: 'l' :: 's' :: 'e' :: rest => some (.atom (.bool false), rest)
  | cs => (splitNumber? cs).map fun (t, rest) => (.atom t.value, rest)

def Token.scanWithin : Nat → List Char → List Token
  | 0, _ => []
  | fuel + 1, cs =>
    match cs.dropWhile isSpace with
    | [] => []
    | cs =>
      match Token.split? cs with
      | none => [.stray]
      | some (token, rest) => token :: scanWithin fuel rest

/-- The tokens of a text. Each takes a character at least, so that its length bounds their number. -/
def Token.scan (cs : List Char) : List Token :=
  scanWithin cs.length cs

end SceneReel.Json
