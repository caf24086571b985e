import SceneReel.Asset.Kinds
import SceneReel.Descriptor.Timeline

/-! Whole documents as an exporter writes them. -/
namespace SceneReel.Descriptor

open Json Asset

/-- An asset under its character id, the fields of both standing side by side in one object. -/
structure Entry (α : Type) where
  charid : String
  asset : α
  deriving DecidableEq, Repr

structure DocumentDef where
  shapes : List (Entry Shape) := []
  bitmaps : List (Entry Bitmap) := []
  sounds : List (Entry Sound) := []
  texts : List (Entry Caption) := []
  timelines : List TimelineDef := []
  deriving DecidableEq, Repr

/-- The character id among the members of an entry, and the other members, which have to be readable. -/
def splitEntry (charid : Option String) :
    List (String × Json) → Except DecodeError (Option String × List (String × Json))
  | [] => .ok (charid, [])
  | (key, v) :: ms =>
    if key = "charid" then
      if charid.isSome then .error (.duplicateField key)
      else
        match decodeScalar v with
        | .error e => .error e
        | .ok s => splitEntry (some s) ms
    else if v.isReadable then
      (splitEntry charid ms).map fun (charid, ms) => (charid, (key, v) :: ms)
    else .error .malformed

/-- Reads an entry; an array does not stand for it. -/
def Entry.decode {α : Type} (asset : Record α) : Decoder (Entry α)
  | .object members cut =>
    match splitEntry none members with
    | .error e => .error e
    | .ok (charid?, members) =>
      if cut.isSome then .error .malformed
      else
        match charid? with
        | none => .error (.missingField "charid")
        | some charid => (asset.decode (.object members)).map (⟨charid, ·⟩)
  | v => .error (v.mismatch "struct Entry")

def Entry.toJson {α : Type} (members : α → List (String × Json)) (e : Entry α) : Json :=
  .object (("charid", .string e.charid) :: members e.asset)

def DocumentDef.record : Record DocumentDef where
  name := "DocumentDef"
  blank := {}
  fields := [
    .optional "Shape" (decodeList (Entry.decode Shape.record)) fun x d => { d with shapes := x },
    .optional "Bitmaps" (decodeList (Entry.decode Bitmap.record)) fun x d => { d with bitmaps := x },
    .optional "Sounds" (decodeList (Entry.decode Sound.record)) fun x d => { d with sounds := x },
    .optional "Text" (decodeList (Entry.decode Caption.record)) fun x d => { d with texts := x },
    .optional "Timeline" (decodeList TimelineDef.record.decode) fun x d => { d with timelines := x }]

def DocumentDef.toJson (d : DocumentDef) : Json :=
  .object [
    ("Shape", .array (d.shapes.map (Entry.toJson Shape.members))),
    ("Bitmaps", .array (d.bitmaps.map (Entry.toJson Bitmap.members))),
    ("Sounds", .array (d.sounds.map (Entry.toJson Sound.members))),
    ("Text", .array (d.texts.map (Entry.toJson Caption.members))),
    ("Timeline", .array (d.timelines.map TimelineDef.toJson))]

end SceneReel.Descriptor
