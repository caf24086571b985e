import SceneReel.Descriptor.Scalar

/-! The kinds of assets that a document holds, with the reader and the writer of each. -/
namespace SceneReel.Asset

open Json Descriptor

structure ShapePath where
  d : String := ""
  fill : Option String := none
  color : Option String := none
  stroke : Option String := none
  strokeWidth : Option String := none
  strokeLinecap : Option String := none
  strokeLinejoin : Option String := none
  colorOpacity : Option String := none
  deriving DecidableEq, Repr

/-- A vector shape, its paths in paint order. -/
structure Shape where
  paths : List ShapePath := []
  deriving DecidableEq, Repr

structure Bitmap where
  width : UInt32 := 0
  height : UInt32 := 0
  bitmapPath : String := ""
  deriving DecidableEq, Repr

structure Caption where
  displayText : String := ""
  font : String := ""
  color : String := ""
  deriving DecidableEq, Repr

/-- An audio file. A sound is never shown. -/
structure Sound where
  soundPath : String := ""
  deriving DecidableEq, Repr

def decodeOptionalString : Decoder (Option String) :=
  decodeOption decodeString

def ShapePath.record : Record ShapePath where
  name := "ShapePath"
  blank := {}
  buffered := true
  fields := [
    .optional "d" decodeString fun x p => { p with d := x },
    .optional "fill" decodeOptionalString fun x p => { p with fill := x },
    .optional "color" decodeOptionalString fun x p => { p with color := x },
    .optional "stroke" decodeOptionalString fun x p => { p with stroke := x },
    .optional "strokeWidth" decodeOptionalString fun x p => { p with strokeWidth := x },
    .optional "strokeLinecap" decodeOptionalString fun x p => { p with strokeLinecap := x },
    .optional "strokeLinejoin" decodeOptionalString fun x p => { p with strokeLinejoin := x },
    .optional "colorOpacity" decodeOptionalString fun x p => { p with colorOpacity := x }]

def Shape.record : Record Shape where
  name := "ShapeAsset"
  blank := {}
  buffered := true
  fields := [.optional "path" (decodeList ShapePath.record.decode) fun x s => { s with paths := x }]

def Bitmap.record : Record Bitmap where
  name := "BitmapAsset"
  blank := {}
  buffered := true
  fields := [
    .mandatory "width" decodeWord fun x b => { b with width := x },
    .mandatory "height" decodeWord fun x b => { b with height := x },
    .mandatory "bitmapPath" decodeString fun x b => { b with bitmapPath := x }]

def Caption.record : Record Caption where
  name := "TextAsset"
  blank := {}
  buffered := true
  fields := [
    .mandatory "displayText" decodeString fun x t => { t with displayText := x },
    .optional "font" decodeString fun x t => { t with font := x },
    .optional "color" decodeString fun x t => { t with color := x }]

def Sound.record : Record Sound where
  name := "SoundAsset"
  blank := {}
  buffered := true
  fields := [.mandatory "soundPath" decodeString fun x s => { s with soundPath := x }]

def ShapePath.toJson (p : ShapePath) : Json :=
  .object <| ("d", .string p.d) ::
    (optionalMember "fill" p.fill ++ optionalMember "color" p.color ++
      optionalMember "stroke" p.stroke ++ optionalMember "strokeWidth" p.strokeWidth ++
      optionalMember "strokeLinecap" p.strokeLinecap ++
      optionalMember "strokeLinejoin" p.strokeLinejoin ++
      optionalMember "colorOpacity" p.colorOpacity)

def Shape.members (s : Shape) : List (String × Json) :=
  [("path", .array (s.paths.map ShapePath.toJson))]

def Bitmap.members (b : Bitmap) : List (String × Json) :=
  [("width", .int b.width.toNat), ("height", .int b.height.toNat),
    ("bitmapPath", .string b.bitmapPath)]

def Caption.members (t : Caption) : List (String × Json) :=
  [("displayText", .string t.displayText), ("font", .string t.font), ("color", .string t.color)]

def Sound.members (s : Sound) : List (String × Json) :=
  [("soundPath", .string s.soundPath)]

end SceneReel.Asset
