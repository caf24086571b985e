import SceneReel.Descriptor.Timeline
import SceneReel.Error
import SceneReel.Geometry.Matrix

/-!
Commands, each a change to the children of one display node, and their compilation from descriptors.
A descriptor of an unknown type compiles whatever its other fields hold.
-/
namespace SceneReel

open Descriptor SceneReel.Geometry

inductive Command where
  /-- Adds a child made from a character, before a sibling if one is named. -/
  | place (char : CharId) (object : ObjectId) (before : Option ObjectId) (matrix : Matrix)
  /-- Gives the first child with the id a new transform. -/
  | move (object : ObjectId) (matrix : Matrix)
  /-- Removes every child with the id. -/
  | remove (object : ObjectId)
  /-- Moves the first child with the id before a sibling, if one is named. -/
  | reorder (object : ObjectId) (before : Option ObjectId)
  /-- Shows or hides every child with the id. -/
  | setVisible (object : ObjectId) (visible : Bool)

inductive CommandKind where
  | place
  | move
  | remove
  | reorder
  | setVisible
  deriving DecidableEq, Repr

namespace Command

def kind : Command → CommandKind
  | .place .. => .place
  | .move .. => .move
  | .remove .. => .remove
  | .reorder .. => .reorder
  | .setVisible .. => .setVisible

def object : Command → ObjectId
  | .place _ object _ _ | .move object _ | .remove object | .reorder object _
  | .setVisible object _ => object

end Command

/-- A command of a frame, or one of a type that playback does not know and skips. -/
inductive FrameCommand where
  | known (command : Command)
  | unsupported (type : String)

namespace FrameCommand

def command? : FrameCommand → Option Command
  | .known command => some command
  | .unsupported _ => none

/-- The object that a command is about; a command of unknown type is about none. -/
def object? (c : FrameCommand) : Option ObjectId :=
  c.command?.map Command.object

end FrameCommand

inductive CommandError where
  | id (e : IdError)
  | noCharacter
  | noObject (cmdType : String)
  | matrix (e : MatrixError)
  deriving DecidableEq, Repr

def CommandError.describe : CommandError → String
  | .id e => e.describe
  | .noCharacter => "Place command without charid"
  | .noObject cmdType => s!"{cmdType} command without objectId"
  | .matrix e => e.describe

/-- Only the word `true` itself means visible. -/
def isVisible (raw : Option String) : Bool :=
  raw == some "true"

namespace Descriptor.CommandDef

def character (c : CommandDef) : Except CommandError CharId :=
  match c.charid with
  | none => .error .noCharacter
  | some s => (CharId.read s).mapError .id

def object (c : CommandDef) : Except CommandError ObjectId :=
  match c.objectId with
  | none => .error (.noObject c.cmdType)
  | some s => (ObjectId.read s).mapError .id

/-- The sibling named; an absent field and the number zero both mean none. -/
def sibling (c : CommandDef) : Except CommandError (Option ObjectId) :=
  match c.placeAfter with
  | none => .ok none
  | some s => ((ObjectId.read s).map ObjectId.sibling?).mapError .id

def matrix (c : CommandDef) : Except CommandError Matrix :=
  match c.transformMatrix with
  | none => .ok .identity
  | some s => (Matrix.read s).mapError .matrix

/-- Compiles a descriptor. The fields that its type needs are read in the order written here. -/
def compile (c : CommandDef) : Except CommandError FrameCommand :=
  match c.cmdType with
  | "Place" => do
    let char ← c.character
    let object ← c.object
    let before ← c.sibling
    let matrix ← c.matrix
    pure (.known (.place char object before matrix))
  | "Move" => do
    let object ← c.object
    let matrix ← c.matrix
    pure (.known (.move object matrix))
  | "Remove" => do
    let object ← c.object
    pure (.known (.remove object))
  | "UpdateZOrder" => do
    let object ← c.object
    let before ← c.sibling
    pure (.known (.reorder object before))
  | "UpdateVisibility" => do
    let object ← c.object
    pure (.known (.setVisible object (isVisible c.visibility)))
  | type => pure (.unsupported type)

end Descriptor.CommandDef

end SceneReel
