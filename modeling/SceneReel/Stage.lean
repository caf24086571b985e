import SceneReel.Animator.Basic
import SceneReel.Document

/-! A stage: a document's assets, a tree of its own, and the animator that plays on it. -/
namespace SceneReel

structure Stage where
  library : Library
  root : Node
  animator : Animator
  /-- The number of ticks played. -/
  ticks : Nat := 0

inductive StageError where
  | noMain
  deriving DecidableEq, Repr

def StageError.describe : StageError → String
  | .noMain => "document has no main timeline"

namespace Stage

/-- A stage that starts as an empty container with the id zero. -/
def start (library : Library) (timeline : Timeline) (options : Options := {}) : Stage where
  library := library
  root := .container ⟨0⟩
  animator := .start timeline options

def ofDocument (d : Document) (options : Options := {}) : Except StageError Stage :=
  match d.main with
  | none => .error .noMain
  | some timeline => .ok (start d.library timeline options)

def tick (s : Stage) : Stage × List Event :=
  let (root, animator, events) := s.animator.tick s.library.resolve s.root
  ({ s with root, animator, ticks := s.ticks + 1 }, events)

def advance : Nat → Stage → Stage
  | 0, s => s
  | n + 1, s => advance n s.tick.1

/-- Plays a number of frames, adding the events to those before. -/
def record : Nat → Stage → Array Event → Stage × Array Event
  | 0, s, events => (s, events)
  | n + 1, s, events =>
    let (s, more) := s.tick
    record n s (events ++ more)

end Stage

end SceneReel
