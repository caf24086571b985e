import SceneReel.Proofs.Playback.Doubling
import SceneReel.Proofs.Stage.Run

/-!
A stage that runs out of indices in its first tick: the first clip of the root nests clips in all slots,
and the second one shares the animator of the last of them.
-/
namespace SceneReel.Stage

open Node (At)

/-- A document of which the main timeline first places a clip that doubles at each level. -/
def crowding (l : Library) (rest : List FrameCommand) : Document where
  library := { l with timelines := l.timelines.insert ⟨1⟩ doubling }
  main := some ⟨[⟨.known (.place ⟨1⟩ ⟨1⟩ none .identity) :: rest⟩, {}]⟩

def crowded (l : Library) (rest : List FrameCommand) : Stage :=
  start (crowding l rest).library ⟨[⟨.known (.place ⟨1⟩ ⟨1⟩ none .identity) :: rest⟩, {}]⟩

theorem ofDocument_crowding (l : Library) (rest : List FrameCommand) :
    ofDocument (crowding l rest) = .ok (crowded l rest) := rfl

theorem resolve_crowded (rest : List FrameCommand) :
    (crowded {} rest).setting.resolve ⟨1⟩ = some (.timeline doubling) := rfl

theorem crowded_fills (rest : List FrameCommand) : ∃ main c r, Full main c r ∧
    (crowded {} rest).played =
      let out := Command.executeAll (crowded {} rest).setting
        (playChain (crowded {} rest).setting idle 32) ⟨0, 0⟩ (Plan.steps [⟨1⟩] rest)
        { Node.container ⟨0⟩ with children := [c] } r
      (out.1, out.2.advance ⟨0, 0⟩) := by
  obtain ⟨c, r, hfull, hplay⟩ := play_fills (resolve_crowded rest) rfl
    ⟨[⟨.known (.place ⟨1⟩ ⟨1⟩ none .identity) :: rest⟩, {}]⟩ rest rfl {} ⟨0⟩
  exact ⟨_, c, r, hfull, hplay⟩

theorem root_advance_one (s : Stage) : (s.advance 1).root = s.played.1 := rfl

theorem arena_advance_one (s : Stage) : (s.advance 1).animator.arena = s.played.2.arena := rfl

theorem children_doubling (library : Library) (options : Options) :
    ∃ a b, ((start library doubling options).advance 1).root.children = [a, b] := by
  let s := start library doubling options
  obtain ⟨f, -, hplay⟩ := play_on_empty (s := s.setting) (r := { arena := s.animator.arena })
    (x := { timeline := doubling }) (h := ⟨0, 0⟩) ⟨0⟩ rfl rfl (.inr rfl)
  obtain ⟨e, e', hpair⟩ := executeAll_pair (s := s.setting)
    (p := playChain s.setting idle s.setting.options.maxNestingDepth) ⟨0, 0⟩
    (.container ⟨0⟩) (Run.emit (Run.seek { arena := s.animator.arena } ⟨0, 0⟩ 0) (.frame f))
  exact ⟨_, _, (congrArg (·.1.children) hplay).trans (congrArg (·.1.children) hpair)⟩

/-- After its first tick, a stage has two clips, the second of which plays an animator far below the
first. -/
structure Shares (s : Stage) (z : Handle) (c b : Node) : Prop where
  children : (s.advance 1).root.children = [c, b]
  bare : b.children = []
  shows : b.animator? = some z
  live : ∃ parent, (s.advance 1).animator.arena.get? z = some
    { timeline := doubling, cursor := 2, parent := parent, depth := 32 }
  events : ∃ pre f f' post,
    s.tick.2 = pre ++ .spawn s.animator.root z ⟨2⟩ ⟨1⟩ :: .frame f :: post ∧
      f.animator = z ∧ .frame f' ∈ pre ∧ f'.animator = z

def secondClip : Command :=
  .place ⟨1⟩ ⟨2⟩ none .identity

theorem crowded_shares : ∃ z c b, (crowded {} [.known secondClip]).Shares z c b := by
  obtain ⟨main, c, r, hfull, hplay⟩ := crowded_fills [.known secondClip]
  obtain ⟨b, r', e, hmistaken, -, hall⟩ := executeAll_full (resolve_crowded [.known secondClip])
    hfull.exhausted 31 ⟨2⟩ [] { Node.container ⟨0⟩ with children := [c] }
  have hsteps : Plan.steps [⟨1⟩] [.known secondClip] = [.place ⟨1⟩ ⟨2⟩ none .identity] := rfl
  rw [hsteps, hall] at hplay
  obtain ⟨parent, hmoved⟩ := hmistaken.moved
  obtain ⟨f, hf, hevents⟩ := hmistaken.events
  obtain ⟨f', hf', hlast⟩ := hfull.deepest.played
  refine ⟨r.arena.lastHandle, c, b, ?_, hmistaken.bare, hmistaken.shows, ⟨parent, ?_⟩,
    r.events.toList, f, f', [e], ?_, hf, Array.mem_toList_iff.mpr hf', hlast⟩
  · rw [root_advance_one, hplay]
    rfl
  · rw [arena_advance_one, hplay]
    exact (Run.get?_advance_of_ne _ hfull.exhausted.last_ne).trans hmoved
  · rw [tick_eq, hplay]
    show (r'.events.push e).toList = _
    rw [Array.toList_push, hevents, List.append_assoc]
    rfl

/-- Where the second clip is removed again, its animator retires, and stays on a node below the first. -/
theorem crowded_bereft : ∃ z c d m,
    ((crowded {} [.known secondClip, .known (.remove ⟨2⟩)]).advance 1).root.children = [c] ∧
    ((crowded {} [.known secondClip, .known (.remove ⟨2⟩)]).advance 1).animator.arena.get? z = none ∧
    At c d m ∧ m.animator? = some z ∧ m.children ≠ [] := by
  obtain ⟨main, c, r, hfull, hplay⟩ := crowded_fills [.known secondClip, .known (.remove ⟨2⟩)]
  obtain ⟨b, r', e, hmistaken, -, hall⟩ :=
    executeAll_full (resolve_crowded [.known secondClip, .known (.remove ⟨2⟩)]) hfull.exhausted 31 ⟨2⟩
      [.remove ⟨2⟩] { Node.container ⟨0⟩ with children := [c] }
  have hsteps : Plan.steps [⟨1⟩] [.known secondClip, .known (.remove ⟨2⟩)] =
      [.place ⟨1⟩ ⟨2⟩ none .identity, .remove ⟨2⟩] := rfl
  rw [hsteps, hall, Command.executeAll_cons] at hplay
  have hkept : [c, b].filter (·.id ≠ ⟨2⟩) = [c] := by simp [hfull.id, hmistaken.id]
  have hremoved : ([c, b].filter (·.id = ⟨2⟩)).filterMap Node.animator? = [r.arena.lastHandle] := by
    simp [hfull.id, hmistaken.id, hmistaken.shows]
  obtain ⟨d, m, hm, hshows, hchildren⟩ := hfull.deepest.shown
  refine ⟨r.arena.lastHandle, c, d, m, ?_, ?_, hm, hshows, hchildren⟩
  · rw [root_advance_one, hplay]
    exact hkept
  · rw [arena_advance_one, hplay]
    refine (Run.get?_advance_of_ne _ hfull.exhausted.last_ne).trans ?_
    show ((([c, b].filter (·.id = ⟨2⟩)).filterMap Node.animator?).foldl (Run.retire · .removed)
      (r'.emit e)).arena.get? r.arena.lastHandle = none
    rw [hremoved]
    exact (congrArg (Arena.get? · _) (Run.arena_retire _ _ _)).trans (Arena.get?_retire_self _ _)

end SceneReel.Stage
