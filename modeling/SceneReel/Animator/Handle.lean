import SceneReel.Json.Value

/-! Handles of animators. -/
namespace SceneReel

/--
Names the animator in a slot of an arena. The generation tells it from the animators that had the
slot before.
-/
structure Handle where
  index : UInt32
  generation : UInt32
  deriving DecidableEq, Repr

def Handle.display (h : Handle) : String :=
  s!"AnimatorId({h.index}@gen{h.generation})"

def Handle.toJson (h : Handle) : Json :=
  .object [("index", .int h.index.toNat), ("generation", .int h.generation.toNat)]

end SceneReel
