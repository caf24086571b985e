import SceneReel.Text.Blank
import SceneReel.Text.Numeral

/-!
The two kinds of identity in a scene: the object a node shows on stage, and the character (asset or
nested timeline) that it was made from. Both are 32-bit numbers read from decimal text.
-/
namespace SceneReel

open Text

/-- Identity of a display object, given by the document and meant to be unique among siblings. -/
structure ObjectId where
  value : UInt32
  deriving DecidableEq, Repr

/-- Identity of a character: a shape, bitmap, text, sound or nested timeline. -/
structure CharId where
  value : UInt32
  deriving DecidableEq, Repr

inductive IdKind where
  | object
  | char
  deriving DecidableEq, Repr

def IdKind.label : IdKind → String
  | .object => "objectId"
  | .char => "charid"

structure IdError where
  kind : IdKind
  text : String
  cause : NumeralError
  deriving DecidableEq, Repr

def IdError.describe (e : IdError) : String :=
  s!"invalid {e.kind.label} '{e.text}': {e.cause.message}"

/-- Reads a 32-bit number, blanks around it allowed. -/
def readWord (s : String) : Except NumeralError UInt32 :=
  (readNumeral UInt32.size (trim s.toList)).map UInt32.ofNat

def readId (kind : IdKind) (s : String) : Except IdError UInt32 :=
  (readWord s).mapError (⟨kind, s, ·⟩)

def ObjectId.read (s : String) : Except IdError ObjectId :=
  (readId .object s).map ObjectId.mk

def CharId.read (s : String) : Except IdError CharId :=
  (readId .char s).map CharId.mk

/-- A sibling reference, in which `0` stands for no sibling. -/
def ObjectId.sibling? (id : ObjectId) : Option ObjectId :=
  if id.value = 0 then none else some id

def ObjectId.display (id : ObjectId) : String :=
  s!"#{id.value}"

def CharId.display (id : CharId) : String :=
  s!"char:{id.value}"

end SceneReel
