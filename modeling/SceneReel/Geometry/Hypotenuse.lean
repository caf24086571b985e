/-!
The length of a vector. The root of the sum of the squares is off by up to a unit in the last place,
so its error is estimated from the components and taken off. Vectors whose squares would overflow or
vanish are scaled by a power of two, which loses nothing.
-/
namespace SceneReel.Geometry

def twoTo (e : Int) : Float := Float.scaleB 1.0 e

/-- The factor that brings the squares of `a ≥ b` between overflow and underflow. -/
def squareScale (a b : Float) : Float :=
  if a > twoTo 511 then twoTo (-600) else if b < twoTo (-459) then twoTo 600 else 1.0

/-- The length of `(a, b)` for `a ≥ b` of moderate size: the rounded root, corrected by its error. -/
def correctedLength (a b : Float) : Float :=
  let root := (a * a + b * b).sqrt
  -- written in the difference of the root and a component, so that products of like size cancel unrounded
  let excess :=
    if root ≤ 2.0 * b then
      let d := root - b
      a * (2.0 * d - a) + (d - 2.0 * (a - b)) * d
    else
      let d := root - a
      2.0 * d * (a - 2.0 * b) + ((4.0 * d - b) * b + d * d)
  root - excess / (2.0 * root)

/-- The length of `(a, b)` for `a ≥ b ≥ 0`; their sum where `b` is lost beside `a`. -/
def orderedLength (a b : Float) : Float :=
  if a ≥ b * twoTo 54 then a + b
  else
    let scale := squareScale a b
    correctedLength (a * scale) (b * scale) / scale

def hypotenuse (x y : Float) : Float :=
  if x.isInf || y.isInf then 1.0 / 0.0
  else if x.isNaN || y.isNaN then x + y
  else if x.abs < y.abs then orderedLength y.abs x.abs
  else orderedLength x.abs y.abs

end SceneReel.Geometry
