import SceneReel.Geometry.Transform
import SceneReel.Json.Decode

/-! The JSON form of transforms. -/
namespace SceneReel.Geometry

open Json

def Vec.record : Record Vec where
  name := "Vec2"
  blank := ⟨0, 0⟩
  fields := [
    .mandatory "x" decodeFloat fun x v => { v with x := x },
    .mandatory "y" decodeFloat fun y v => { v with y := y }]

def Transform.record : Record Transform where
  name := "NodeTransform"
  blank := .identity
  fields := [
    .mandatory "translate" Vec.record.decode fun x t => { t with translate := x },
    .mandatory "scale" Vec.record.decode fun x t => { t with scale := x },
    .mandatory "rotation_deg" decodeFloat fun x t => { t with rotation := x },
    .mandatory "skew_deg" Vec.record.decode fun x t => { t with skew := x }]

def Vec.toJson (v : Vec) : Json :=
  .object [("x", .float v.x), ("y", .float v.y)]

def Transform.toJson (t : Transform) : Json :=
  .object [
    ("translate", t.translate.toJson),
    ("scale", t.scale.toJson),
    ("rotation_deg", .float t.rotation),
    ("skew_deg", t.skew.toJson)]

end SceneReel.Geometry
