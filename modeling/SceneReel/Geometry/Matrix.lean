import SceneReel.Text.Blank
import SceneReel.Decimal.Reading

/-!
Affine matrices of the plane, and the text form in which documents spell them: six numbers between
commas, in the order `a,b,c,d,e,f` for the rows `a c e` and `b d f`.
-/
namespace SceneReel.Geometry

/-- The affine map with the rows `a c e` and `b d f`. -/
structure Matrix where
  a : Float
  b : Float
  c : Float
  d : Float
  e : Float
  f : Float

def Matrix.identity : Matrix := ⟨1, 0, 0, 1, 0, 0⟩

def Matrix.toList (m : Matrix) : List Float := [m.a, m.b, m.c, m.d, m.e, m.f]

inductive MatrixFault where
  /-- There is a seventh component. -/
  | tooMany
  /-- The component at this index is no number. -/
  | unreadable (index : Nat) (cause : Decimal.ReadError)
  /-- The component at this index is infinite or NaN. -/
  | notFinite (index : Nat)
  /-- There are this many components, fewer than six. -/
  | count (n : Nat)
  deriving DecidableEq, Repr

structure MatrixError where
  text : String
  fault : MatrixFault
  deriving DecidableEq, Repr

def MatrixError.describe (e : MatrixError) : String :=
  let subject := s!"transform matrix '{e.text}'"
  match e.fault with
  | .tooMany => s!"{subject} has more than 6 components"
  | .unreadable index cause => s!"{subject}: component {index}: {cause.message}"
  | .notFinite index => s!"{subject}: component {index} is not finite"
  | .count n => s!"{subject} has {n} components, expected 6"

/-- The pieces of a text between its commas; a text without commas is one piece. -/
def pieces : List Char → List (List Char)
  | [] => [[]]
  | c :: cs =>
    if c = ',' then [] :: pieces cs
    else
      match pieces cs with
      | [] => [[c]]
      | p :: ps => (c :: p) :: ps

/-- Reads the pieces from the one at `index` on, in order, up to the first fault. -/
def readComponents (index : Nat) : List (List Char) → Except MatrixFault (List Float)
  | [] => .ok []
  | p :: ps =>
    if index = 6 then .error .tooMany
    else
      match Decimal.readFloat (Text.trim p) with
      | .error cause => .error (.unreadable index cause)
      | .ok x =>
        if x.isFinite then (readComponents (index + 1) ps).map (x :: ·)
        else .error (.notFinite index)

/-- The matrix with the given coefficients, of which there have to be six. -/
def Matrix.ofList : List Float → Except MatrixFault Matrix
  | [a, b, c, d, e, f] => .ok ⟨a, b, c, d, e, f⟩
  | xs => .error (.count xs.length)

def Matrix.read (s : String) : Except MatrixError Matrix :=
  ((readComponents 0 (pieces s.toList)).bind Matrix.ofList).mapError (⟨s, ·⟩)

theorem pieces_ne_nil (cs : List Char) : pieces cs ≠ [] := by
  cases cs with
  | nil => simp [pieces]
  | cons c cs =>
    simp only [pieces]
    split
    · simp
    · split <;> simp

end SceneReel.Geometry
