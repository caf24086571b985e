import SceneReel.Proofs.Arena.Timelines
import SceneReel.Proofs.Playback.Players

/-!
Playback with the commands of unknown type left out. Every layer of playback does the same to the tree and
to the arena as with them, and reports the same but for their numbers.
-/
namespace SceneReel

def Frame.supported (f : Frame) : Frame :=
  ⟨f.commands.filter (·.command?.isSome)⟩

/-- The timeline with all its frames, none of which has commands of unknown type. -/
def Timeline.supported (t : Timeline) : Timeline :=
  ⟨t.frames.map Frame.supported⟩

def Resolved.supported : Resolved → Resolved
  | .timeline t => .timeline t.supported
  | r => r

def Setting.supported (s : Setting) : Setting :=
  { s with resolve := fun char => (s.resolve char).map Resolved.supported }

def Event.uncounted : Event → Event
  | .frame e => .frame { e with unsupported := 0 }
  | e => e

def Run.supported (r : Run) : Run where
  arena := r.arena.mapTimelines Timeline.supported
  events := r.events.map Event.uncounted

@[simp] theorem Timeline.frameCount_supported (t : Timeline) :
    t.supported.frameCount = t.frameCount :=
  List.length_map ..

theorem Frame.places_supported (f : Frame) : f.supported.places = f.places := by
  funext id
  unfold places supported
  induction f.commands with
  | nil => rfl
  | cons c cs ih => cases c <;> simp_all [FrameCommand.command?]

theorem Plan.steps_supported (live : List ObjectId) (cs : List FrameCommand) :
    steps live (cs.filter (·.command?.isSome)) = steps live cs := by
  induction cs generalizing live with
  | nil => rfl
  | cons c cs ih =>
    cases c with
    | known c => exact congrArg ((step live c).1 ++ ·) (ih (step live c).2)
    | unsupported type => exact ih live

/-- The plan is the same, with nothing left to drop. -/
theorem Plan.ofFrame_supported (ids : List ObjectId) (f : Frame) (looped : Bool) :
    ofFrame ids f.supported looped = { ofFrame ids f looped with unsupported := 0 } := by
  have hcount : f.supported.commands.countP (·.command?.isNone) = 0 := by
    rw [List.countP_eq_zero]
    intro c hc
    simpa [Option.isNone_iff_eq_none, Option.isSome_iff_ne_none] using (List.mem_filter.mp hc).2
  have hsteps : ∀ live, steps live f.supported.commands = steps live f.commands :=
    fun live => steps_supported live f.commands
  simp only [ofFrame, hcount, hsteps, undeclared, Frame.places_supported]

namespace Run

@[simp] theorem arena_supported (r : Run) :
    r.supported.arena = r.arena.mapTimelines Timeline.supported := rfl

theorem supported_emit (r : Run) (e : Event) :
    (r.emit e).supported = r.supported.emit e.uncounted := by
  simp [supported, emit]

theorem supported_retire (r : Run) (reason : RetireReason) (h : Handle) :
    (r.retire reason h).supported = r.supported.retire reason h := by
  unfold retire
  rw [arena_supported, Arena.retire_mapTimelines]
  split <;> simp_all [supported, emit, Event.uncounted]

theorem spawnDepth_supported (r : Run) (owner : Handle) :
    r.supported.spawnDepth owner = r.spawnDepth owner := by
  unfold spawnDepth
  rw [arena_supported, Arena.get?_mapTimelines]
  cases r.arena.get? owner <;> rfl

theorem supported_start (r : Run) (t : Timeline) (owner : Handle) (depth : Nat) (object : ObjectId)
    (char : CharId) : (r.start t owner depth object char).supported =
      r.supported.start t.supported owner depth object char := by
  rw [start, supported_emit]
  simp only [start, arena_supported, Arena.spawn_mapTimelines]
  rfl

theorem supported_seek (r : Run) (h : Handle) (number : Nat) :
    (r.seek h number).supported = r.supported.seek h number := by
  simp only [seek, supported]
  rw [Arena.modify_mapTimelines]
  exact fun _ => rfl

theorem supported_advance (r : Run) (h : Handle) : (r.advance h).supported = r.supported.advance h := by
  simp only [advance, supported]
  rw [Arena.modify_mapTimelines]
  exact fun _ => rfl

end Run

/-- A player does without the commands of unknown type what another one does with them. -/
def Player.Supports (p q : Player) : Prop :=
  ∀ h n r, q h n r.supported = ((p h n r).1, (p h n r).2.supported)

variable {s : Setting} {p q : Player}

theorem Setting.resolve_supported (s : Setting) (char : CharId) :
    s.supported.resolve char = (s.resolve char).map Resolved.supported := rfl

theorem ofResolved_supported (char : CharId) (r : Option Resolved) :
    NodeKind.ofResolved char (r.map Resolved.supported) = NodeKind.ofResolved char r := by
  cases r with
  | none => rfl
  | some r => cases r <;> rfl

theorem spawn_supported (hp : p.Supports q) (owner : Handle) (char : CharId) (t : Timeline) (n : Node)
    (r : Run) : spawn s.supported q owner char t.supported n r.supported =
      ((spawn s p owner char t n r).1, (spawn s p owner char t n r).2.supported) := by
  by_cases hd : s.options.maxNestingDepth < r.spawnDepth owner
  · have hd' : s.supported.options.maxNestingDepth < r.supported.spawnDepth owner := by
      rwa [Run.spawnDepth_supported]
    rw [spawn_of_lt hd, spawn_of_lt hd', Run.spawnDepth_supported, Run.supported_emit]
    rfl
  · have hd' : r.supported.spawnDepth owner ≤ s.supported.options.maxNestingDepth := by
      rw [Run.spawnDepth_supported]
      exact Nat.le_of_not_lt hd
    rw [spawn_of_le (Nat.le_of_not_lt hd), spawn_of_le hd', Run.spawnDepth_supported, Run.arena_supported,
      Arena.spawn_mapTimelines, ← Run.supported_start]
    exact hp _ _ _

theorem enter_supported (hp : p.Supports q) (owner : Handle) (char : CharId) (object : ObjectId)
    (m : Geometry.Matrix) (r : Run) :
    Command.enter s.supported q owner char object m r.supported =
      ((Command.enter s p owner char object m r).1,
        (Command.enter s p owner char object m r).2.supported) := by
  simp only [Command.enter, Setting.resolve_supported, ofResolved_supported]
  cases hchar : s.resolve char with
  | none => rfl
  | some resolved =>
    cases resolved with
    | timeline t => exact spawn_supported hp owner char t _ r
    | _ => rfl

theorem retireAll_supported (gs : List Handle) (reason : RetireReason) (r : Run) :
    gs.foldl (Run.retire · reason) r.supported = (gs.foldl (Run.retire · reason) r).supported := by
  induction gs generalizing r with
  | nil => rfl
  | cons h gs ih => rw [List.foldl_cons, List.foldl_cons, ← Run.supported_retire, ih]

theorem settle_supported (hp : p.Supports q) (owner : Handle) (c : Command) (n : Node) (r : Run) :
    c.settle s.supported q owner n r.supported = (c.settle s p owner n r).supported := by
  cases c with
  | place char object before m =>
    exact congrArg Prod.snd (enter_supported hp owner char object m r)
  | remove object => exact retireAll_supported _ _ r
  | _ => rfl

/-- The outcome of a command depends on the node, and on which characters there are. -/
theorem outcome_congr {s' : Setting} (hs : ∀ char, (s'.resolve char).isNone = (s.resolve char).isNone)
    (p q : Player) (owner : Handle) (c : Command) (n : Node) (r r' : Run) :
    (c.execute s' q owner n r').1 = (c.execute s p owner n r).1 := by
  cases c with
  | place char object before m => simp only [Command.execute, Command.placeOutcome, hs]
  | move object m =>
    simp only [Command.execute]
    split <;> rfl
  | remove object =>
    simp only [Command.execute]
    split <;> rfl
  | reorder object before =>
    simp only [Command.execute]
    split
    · cases before with
      | none => rfl
      | some sibling => dsimp only; split <;> rfl
    · rfl
  | setVisible object visible =>
    simp only [Command.execute]
    split <;> rfl

theorem isNone_resolve_supported (s : Setting) (char : CharId) :
    (s.supported.resolve char).isNone = (s.resolve char).isNone := by
  rw [Setting.resolve_supported, Option.isNone_map]

theorem executeAll_supported (hp : p.Supports q) (owner : Handle) (cs : List Command) (n : Node)
    (r : Run) : Command.executeAll s.supported q owner cs n r.supported =
      ((Command.executeAll s p owner cs n r).1, (Command.executeAll s p owner cs n r).2.supported) := by
  induction cs generalizing n r with
  | nil => rfl
  | cons c cs ih =>
    have hemit := Run.supported_emit (c.settle s p owner n r)
      (.command owner c.kind c.object (c.execute s p owner n r).1)
    rw [Command.executeAll_cons, Command.executeAll_cons, ← ih, hemit, settle_supported hp,
      outcome_congr (isNone_resolve_supported s) p q owner c n r r.supported]
    simp only [enter_supported hp]
    rfl

theorem playChildren_supported (hp : p.Supports q) (gs : List Handle) (n : Node) (r : Run) :
    playChildren s.supported q gs n r.supported =
      ((playChildren s p gs n r).1, (playChildren s p gs n r).2.supported) := by
  induction gs generalizing n r with
  | nil => rfl
  | cons g gs ih =>
    rw [playChildren, playChildren]
    cases hc : n.animatedChild? g with
    | some c =>
      obtain ⟨pre, post, -, -, hupdate⟩ := Node.updateChild?_of_animated hc
      rw [hupdate, hupdate]
      simp only [hp g c r]
      exact ih _ _
    | none =>
      have hnone : ∀ f : Node → Node × Run, n.updateChild? (·.animator? = some g) f = none := by
        intro f
        rw [Node.updateChild?_eq_none_iff]
        intro c hcs
        simpa using List.find?_eq_none.mp hc c hcs
      rw [hnone, hnone]
      dsimp only
      rw [← ih]
      congr 1
      split
      · rw [if_pos ‹_›, Run.supported_retire]
      · rw [if_neg ‹_›]

theorem playFrame_supported (hp : p.Supports q) (h : Handle) (t : Timeline) (n : Node) (r : Run) :
    playFrame s.supported q h t.supported n r.supported =
      ((playFrame s p h t n r).1, (playFrame s p h t n r).2.supported) := by
  have hget : r.supported.arena.get? h = _ := Arena.get?_mapTimelines r.arena h
  cases hx : r.arena.get? h with
  | none =>
    rw [hx, Option.map_none] at hget
    rw [playFrame_of_dead s p hx, playFrame_of_dead s.supported q hget]
  | some x =>
    rw [hx, Option.map_some] at hget
    have hframes : ∀ k, t.supported.frames[k]? = t.frames[k]?.map Frame.supported := fun k =>
      List.getElem?_map
    cases hframe : t.frames[if x.cursor = t.frameCount then 0 else x.cursor]? with
    | none =>
      have hframe' := hframes (if x.cursor = t.frameCount then 0 else x.cursor)
      rw [hframe, Option.map_none, ← Timeline.frameCount_supported] at hframe'
      rw [playFrame_of_none s p hx hframe, playFrame_of_none s.supported q hget hframe',
        Timeline.frameCount_supported, Run.supported_seek]
      rfl
    | some frame =>
      have hframe' := hframes (if x.cursor = t.frameCount then 0 else x.cursor)
      rw [hframe, Option.map_some, ← Timeline.frameCount_supported] at hframe'
      have hreport : ∀ number looped,
          (r.supported.seek h number).emit (.frame
            ((Plan.ofFrame n.childIds frame.supported looped).report h number looped)) =
          ((r.seek h number).emit (.frame
            ((Plan.ofFrame n.childIds frame looped).report h number looped))).supported := by
        intro number looped
        rw [Run.supported_emit, Run.supported_seek, Plan.ofFrame_supported]
        rfl
      have hcommands : ∀ looped, (Plan.ofFrame n.childIds frame.supported looped).commands =
          (Plan.ofFrame n.childIds frame looped).commands := by
        intro looped
        rw [Plan.ofFrame_supported]
      rw [playFrame_eq s p hx hframe, playFrame_eq s.supported q hget hframe']
      have hcursor : (x.mapTimeline Timeline.supported).cursor = x.cursor := rfl
      simp only [Timeline.frameCount_supported, hcursor, hreport, hcommands,
        executeAll_supported hp, Run.supported_advance]

theorem playStep_supported (hp : p.Supports q) : (playStep s p).Supports (playStep s.supported q) := by
  intro h n r
  have hget : r.supported.arena.get? h = _ := Arena.get?_mapTimelines r.arena h
  cases hx : r.arena.get? h with
  | none =>
    rw [hx, Option.map_none] at hget
    rw [playStep_of_dead s p hx, playStep_of_dead s.supported q hget]
  | some x =>
    rw [hx, Option.map_some] at hget
    have hframes : (x.mapTimeline Timeline.supported).timeline.frameCount = x.timeline.frameCount :=
      Timeline.frameCount_supported x.timeline
    by_cases hcount : x.timeline.frameCount = 0
    · rw [playStep_of_empty s p hx hcount, playStep_of_empty s.supported q hget (hframes.trans hcount)]
    · have hchildren : (x.mapTimeline Timeline.supported).children = x.children := rfl
      rw [playStep_eq s p hx hcount, playStep_eq s.supported q hget (hframes ▸ hcount), hchildren,
        playChildren_supported hp]
      exact playFrame_supported hp h x.timeline _ _

theorem playChain_supported (s : Setting) (n : Nat) :
    (playChain s idle n).Supports (playChain s.supported idle n) := by
  induction n with
  | zero => exact fun _ _ _ => rfl
  | succ n ih => exact playStep_supported ih

theorem play_supported (s : Setting) : (play s).Supports (play s.supported) :=
  fun h n r => playChain_supported s (nestingBound s n) h n r

end SceneReel
