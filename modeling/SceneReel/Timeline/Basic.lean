import SceneReel.Timeline.Command

/-! Compiled timelines: frames of commands, and their compilation from descriptors. -/
namespace SceneReel

open Descriptor

structure Frame where
  commands : List FrameCommand := []

def Frame.places (f : Frame) (id : ObjectId) : Bool :=
  f.commands.any fun
    | .known (.place _ object _ _) => object == id
    | _ => false

/-- The frames that play one after another, over and over. -/
structure Timeline where
  frames : List Frame := []

def Timeline.frameCount (t : Timeline) : Nat :=
  t.frames.length

/-- A command that does not compile, with its place in the timeline. -/
structure TimelineError where
  frame : Nat
  command : Nat
  cause : CommandError
  deriving DecidableEq, Repr

def TimelineError.describe (e : TimelineError) : String :=
  let cause := Error.message (.validation e.cause.describe)
  s!"frame {e.frame}, command {e.command}: {cause}"

namespace Descriptor

/-- Compiles descriptors in order, the first of them at the given place. -/
def compileCommands (frame command : Nat) :
    List CommandDef → Except TimelineError (List FrameCommand)
  | [] => .ok []
  | c :: cs =>
    match c.compile with
    | .error e => .error ⟨frame, command, e⟩
    | .ok compiled => (compileCommands frame (command + 1) cs).map (compiled :: ·)

def compileFrames (frame : Nat) : List FrameDef → Except TimelineError (List Frame)
  | [] => .ok []
  | f :: fs =>
    match compileCommands frame 0 f.commands with
    | .error e => .error e
    | .ok commands => (compileFrames (frame + 1) fs).map (⟨commands⟩ :: ·)

def TimelineDef.compile (t : TimelineDef) : Except TimelineError Timeline :=
  (compileFrames 0 t.frames).map Timeline.mk

end Descriptor

end SceneReel
