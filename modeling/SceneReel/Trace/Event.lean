import SceneReel.Animator.Handle
import SceneReel.Timeline.Command

/-! What playback reports of its work, event by event. -/
namespace SceneReel

inductive Outcome where
  /-- It took effect. -/
  | applied
  /-- No child has the id, and nothing changed. -/
  | lookupMiss
  /-- The named sibling is missing: a new child went on top, an old one kept its position. -/
  | siblingMiss
  /-- The character is unknown, and a placeholder was added. -/
  | unresolved
  deriving DecidableEq, Repr

inductive RetireReason where
  /-- A command removed its node. -/
  | removed
  /-- Its node is no longer among the children of its parent's node. -/
  | detached
  deriving DecidableEq, Repr

/-- A frame that is about to be played. -/
structure FrameEvent where
  animator : Handle
  frame : Nat
  /-- The frame follows the last one of the timeline. -/
  looped : Bool
  /-- How many of the commands remove what the new round does not declare. -/
  pruned : Nat
  commands : Nat
  unsupported : Nat
  deriving DecidableEq, Repr

inductive Event where
  | frame (e : FrameEvent)
  /-- A command was executed. -/
  | command (animator : Handle) (kind : CommandKind) (object : ObjectId) (outcome : Outcome)
  /-- A nested animator started. -/
  | spawn (parent child : Handle) (object : ObjectId) (char : CharId)
  /-- An animator was retired with its descendants, `slots` in all. -/
  | retire (animator : Handle) (slots : Nat) (reason : RetireReason)
  /-- A clip stays without an animator, which would have had too great a depth. -/
  | nestingLimit (parent : Handle) (object : ObjectId) (depth : Nat)
  deriving DecidableEq, Repr

def CommandKind.label : CommandKind → String
  | .place => "Place"
  | .move => "Move"
  | .remove => "Remove"
  | .reorder => "UpdateZOrder"
  | .setVisible => "UpdateVisibility"

def Outcome.label : Outcome → String
  | .applied => "Applied"
  | .lookupMiss => "LookupMiss"
  | .siblingMiss => "SiblingMiss"
  | .unresolved => "Unresolved"

def RetireReason.label : RetireReason → String
  | .removed => "Removed"
  | .detached => "Detached"

def Event.toJson : Event → Json
  | .frame e =>
    .object [("Frame", .object [
      ("animator", e.animator.toJson),
      ("frame", .int e.frame),
      ("looped", .bool e.looped),
      ("pruned", .int e.pruned),
      ("commands", .int e.commands),
      ("unsupported", .int e.unsupported)])]
  | .command animator kind object outcome =>
    .object [("Command", .object [
      ("animator", animator.toJson),
      ("kind", .string kind.label),
      ("object_id", .int object.value.toNat),
      ("outcome", .string outcome.label)])]
  | .spawn parent child object char =>
    .object [("Spawn", .object [
      ("parent", parent.toJson),
      ("child", child.toJson),
      ("object_id", .int object.value.toNat),
      ("char_id", .int char.value.toNat)])]
  | .retire animator slots reason =>
    .object [("Retire", .object [
      ("animator", animator.toJson),
      ("slots", .int slots),
      ("reason", .string reason.label)])]
  | .nestingLimit parent object depth =>
    .object [("NestingLimit", .object [
      ("parent", parent.toJson),
      ("object_id", .int object.value.toNat),
      ("depth", .int depth)])]

end SceneReel
