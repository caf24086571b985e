import SceneReel.Geometry.Hypotenuse
import SceneReel.Geometry.Matrix

/-!
The transform of a display node, kept as shift, scale, rotation and skew, and its exchange with
matrices. Taking a matrix apart folds its rotation into the two skew angles.
-/
namespace SceneReel.Geometry

structure Vec where
  x : Float
  y : Float

def Vec.isFinite (v : Vec) : Bool := v.x.isFinite && v.y.isFinite

/-- A transform in separate parts, with angles in degrees. -/
structure Transform where
  translate : Vec
  scale : Vec
  rotation : Float
  skew : Vec

def Transform.identity : Transform := ⟨⟨0, 0⟩, ⟨1, 1⟩, 0, ⟨0, 0⟩⟩

def pi : Float := 3.141592653589793

def toDegrees (radians : Float) : Float := radians * (180 / pi)

def toRadians (degrees : Float) : Float := degrees * (pi / 180)

/-- Takes a matrix apart. The rotation is always zero, its angle being part of both skews. -/
def Matrix.decompose (m : Matrix) : Transform where
  translate := ⟨m.e, m.f⟩
  scale := ⟨hypotenuse m.a m.b, hypotenuse m.c m.d⟩
  rotation := 0
  skew := ⟨toDegrees (Float.atan2 (-m.c) m.d), toDegrees (Float.atan2 m.b m.a)⟩

def Transform.toMatrix (t : Transform) : Matrix :=
  let turn := toRadians t.rotation
  let skewX := toRadians t.skew.x + turn
  let skewY := toRadians t.skew.y + turn
  { a := skewY.cos * t.scale.x
    b := skewY.sin * t.scale.x
    c := -skewX.sin * t.scale.y
    d := skewX.cos * t.scale.y
    e := t.translate.x
    f := t.translate.y }

def Transform.isFinite (t : Transform) : Bool :=
  t.translate.isFinite && t.scale.isFinite && t.rotation.isFinite && t.skew.isFinite

end SceneReel.Geometry
