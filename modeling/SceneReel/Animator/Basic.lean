import SceneReel.Animator.Playback

/-! An animator for a tree of the host: the root animator of an arena, and its ticks. -/
namespace SceneReel

/-- A root animator with the arena of the animators nested in it. The tree belongs to the host. -/
structure Animator where
  arena : Arena
  root : Handle
  options : Options

namespace Animator

def start (timeline : Timeline) (options : Options := {}) : Animator :=
  let (root, arena) := Arena.alloc {} timeline none 0
  { arena, root, options }

def tick (a : Animator) (resolve : CharId → Option Resolved) (target : Node) :
    Node × Animator × List Event :=
  let (target, run) := play ⟨resolve, a.options⟩ a.root target { arena := a.arena }
  (target, { a with arena := run.arena }, run.events.toList)

/-- The frame that the root plays next; the number of frames after the last one. -/
def cursor (a : Animator) : Nat :=
  match a.arena.get? a.root with
  | some x => x.cursor
  | none => 0

def frameCount (a : Animator) : Nat :=
  match a.arena.get? a.root with
  | some x => x.timeline.frameCount
  | none => 0

end Animator

end SceneReel
