import SceneReel.Display.Node
import SceneReel.Timeline.Basic

/-!
The commands that bring the children of a node to a frame. An object that is already there is moved and
reordered instead of being placed again, and a new round starts by removing what it does not declare.
-/
namespace SceneReel

structure Plan where
  commands : List Command
  /-- How many of the commands, the first ones, remove what the new round does not declare. -/
  pruned : Nat
  /-- How many commands of the frame were dropped, their type being unknown. -/
  unsupported : Nat

namespace Plan

/-- The commands for one command of the frame, and the objects there are after it. -/
def step (live : List ObjectId) : Command → List Command × List ObjectId
  | .place char object before matrix =>
    if object ∈ live then ([.move object matrix, .reorder object before], live)
    else ([.place char object before matrix], object :: live)
  | .remove object => ([.remove object], live.filter (· ≠ object))
  | c => ([c], live)

def steps (live : List ObjectId) : List FrameCommand → List Command
  | [] => []
  | .unsupported _ :: cs => steps live cs
  | .known c :: cs =>
    let (commands, live) := step live c
    commands ++ steps live cs

/-- The children that a new round does not declare, each once. -/
def undeclared (frame : Frame) (ids : List ObjectId) : List ObjectId :=
  (ids.filter fun id => !frame.places id).eraseDups

def ofFrame (ids : List ObjectId) (frame : Frame) (looped : Bool) : Plan :=
  let removed := if looped then undeclared frame ids else []
  let live := if looped then ids.filter frame.places else ids
  { commands := removed.map .remove ++ steps live frame.commands
    pruned := removed.length
    unsupported := frame.commands.countP (·.command?.isNone) }

end Plan

end SceneReel
