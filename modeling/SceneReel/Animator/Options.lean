import SceneReel.Json.Decode

/-! The options of playback. -/
namespace SceneReel

open Json

/-- How deep clips nest, and what becomes of clips that leave the tree without a command. -/
structure Options where
  /-- The greatest depth of an animator; the root has depth 0. Deeper clips stay without one. -/
  maxNestingDepth : Nat := 32
  /-- Animators whose node is no longer under its parent's node are retired. -/
  retireDetached : Bool := true
  deriving DecidableEq, Repr

def Options.record : Record Options where
  name := "AnimatorOpts"
  blank := {}
  fields := [
    .optional "max_nesting_depth" decodeSize fun x o => { o with maxNestingDepth := x },
    .optional "retire_detached" decodeBool fun x o => { o with retireDetached := x }]

end SceneReel
