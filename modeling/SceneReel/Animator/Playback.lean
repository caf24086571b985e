import SceneReel.Animator.Arena
import SceneReel.Animator.Options
import SceneReel.Asset.Library
import SceneReel.Timeline.Plan
import SceneReel.Trace.Event

/-!
One tick of an animator: its nested animators play first, then the commands of its frame are executed
on the children of its node. A command may start a nested animator, which plays at once. Each part
takes the player of nested animators as an argument, and `playChain` ties the knot.
-/
namespace SceneReel

structure Setting where
  resolve : CharId → Option Resolved
  options : Options

/-- What playback changes beside the tree, and what it has reported. -/
structure Run where
  arena : Arena
  events : Array Event := #[]

/-- Advances an animator on the node that hosts it. -/
abbrev Player := Handle → Node → Run → Node × Run

namespace Run

def emit (run : Run) (e : Event) : Run :=
  { run with events := run.events.push e }

/-- Retires an animator, and reports it unless there was nothing to retire. -/
def retire (run : Run) (reason : RetireReason) (h : Handle) : Run :=
  match run.arena.retire h with
  | (0, _) => run
  | (slots, arena) => { run with arena }.emit (.retire h slots reason)

def spawnDepth (run : Run) (owner : Handle) : Nat :=
  match run.arena.get? owner with
  | some x => x.depth + 1
  | none => 1

end Run

def NodeKind.ofResolved (char : CharId) : Option Resolved → NodeKind
  | some (.shape _) => .shape char
  | some (.bitmap _) => .bitmap char
  | some (.text _) => .text char
  | some (.timeline _) => .clip char none
  | none => .placeholder char

/-- Starts the timeline of a new clip and plays its first frame, unless the clip is nested too deep. -/
def spawn (s : Setting) (player : Player) (owner : Handle) (char : CharId) (timeline : Timeline)
    (node : Node) (run : Run) : Node × Run :=
  let depth := run.spawnDepth owner
  if s.options.maxNestingDepth < depth then (node, run.emit (.nestingLimit owner node.id depth))
  else
    let (child, arena) := run.arena.alloc timeline (some owner) depth
    let arena := arena.modify owner fun x => { x with children := x.children ++ [child] }
    player child { node with kind := .clip char (some child) }
      ({ run with arena }.emit (.spawn owner child node.id char))

namespace Command

def placeOutcome (resolved : Option Resolved) (before : Option ObjectId) (target : Node) : Outcome :=
  if before.any fun sibling => !target.contains sibling then .siblingMiss
  else if resolved.isNone then .unresolved
  else .applied

def execute (s : Setting) (player : Player) (owner : Handle) (c : Command) (target : Node)
    (run : Run) : Outcome × Node × Run :=
  match c with
  | .place char object before matrix =>
    let resolved := s.resolve char
    let fresh : Node :=
      { id := object, kind := .ofResolved char resolved, transform := matrix.decompose }
    let (node, run) :=
      match resolved with
      | some (.timeline timeline) => spawn s player owner char timeline fresh run
      | _ => (fresh, run)
    (placeOutcome resolved before target, (target.insertBefore node before).2, run)
  | .move object matrix =>
    match target.updateChild? (·.id = object) fun c =>
      ({ c with transform := matrix.decompose }, ()) with
    | some (target, _) => (.applied, target, run)
    | none => (.lookupMiss, target, run)
  | .remove object =>
    match target.removeAll object with
    | ([], _) => (.lookupMiss, target, run)
    | (removed, target) =>
      (.applied, target, (removed.filterMap Node.animator?).foldl (Run.retire · .removed) run)
  | .reorder object before =>
    if target.contains object then
      match before with
      | none => (.applied, target, run)
      | some sibling =>
        if target.contains sibling then
          (.applied, (target.moveBefore? object sibling).getD target, run)
        else (.siblingMiss, target, run)
    else (.lookupMiss, target, run)
  | .setVisible object visible =>
    if target.contains object then
      (.applied, target.mapChildren object fun c => { c with visible }, run)
    else (.lookupMiss, target, run)

def executeAll (s : Setting) (player : Player) (owner : Handle) :
    List Command → Node → Run → Node × Run
  | [], target, run => (target, run)
  | c :: cs, target, run =>
    let (outcome, target, run) := c.execute s player owner target run
    executeAll s player owner cs target (run.emit (.command owner c.kind c.object outcome))

end Command

/-- Plays nested animators in order; one whose node is not there is retired if the options say so. -/
def playChildren (s : Setting) (player : Player) : List Handle → Node → Run → Node × Run
  | [], target, run => (target, run)
  | h :: hs, target, run =>
    match target.updateChild? (·.animator? = some h) (player h · run) with
    | some (target, run) => playChildren s player hs target run
    | none =>
      playChildren s player hs target
        (if s.options.retireDetached then run.retire .detached h else run)

/-- Plays the frame that the cursor of an animator has reached, from the first after the last one. -/
def playFrame (s : Setting) (player : Player) (h : Handle) (timeline : Timeline) (target : Node)
    (run : Run) : Node × Run :=
  match run.arena.get? h with
  | none => (target, run)
  | some x =>
    let looped := x.cursor == timeline.frameCount
    let number := if looped then 0 else x.cursor
    let run := { run with arena := run.arena.modify h fun x => { x with cursor := number } }
    match timeline.frames[number]? with
    | none => (target, run)
    | some frame =>
      let plan := Plan.ofFrame target.childIds frame looped
      let run := run.emit (.frame
        { animator := h, frame := number, looped, pruned := plan.pruned,
          commands := plan.commands.length, unsupported := plan.unsupported })
      let (target, run) := Command.executeAll s player h plan.commands target run
      (target, { run with
        arena := run.arena.modify h fun x => { x with cursor := x.cursor + 1 } })

/-- One tick of an animator, given the player of nested ones. A timeline without frames does nothing. -/
def playStep (s : Setting) (player : Player) : Player := fun h target run =>
  match run.arena.get? h with
  | none => (target, run)
  | some x =>
    if x.timeline.frameCount = 0 then (target, run)
    else
      let (target, run) := playChildren s player x.children target run
      playFrame s player h x.timeline target run

/-- The player whose calls nest `n` deep before they reach the player `innermost`. -/
def playChain (s : Setting) (innermost : Player) : Nat → Player
  | 0 => innermost
  | n + 1 => playStep s (playChain s innermost n)

def idle : Player := fun _ target run => (target, run)

/-- How deep the calls of one tick can nest: down the tree, and then through new clips. -/
def nestingBound (s : Setting) (target : Node) : Nat :=
  target.height + s.options.maxNestingDepth + 1

def play (s : Setting) : Player := fun h target run =>
  playChain s idle (nestingBound s target) h target run

end SceneReel
