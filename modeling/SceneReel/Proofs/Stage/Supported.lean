import SceneReel.Proofs.Document.Supported
import SceneReel.Proofs.Playback.Counted
import SceneReel.Proofs.Stage.Mirror

/-!
Commands of unknown type never affect what a stage shows. Without them each tick leaves the same tree and the
same arena, and reports the same but for their numbers.
-/
namespace SceneReel.Stage

open Descriptor

/-- The stage with no commands of unknown type in its library and in the timelines of its animators. -/
def supported (s : Stage) : Stage :=
  { s with
    library := s.library.supported
    animator := { s.animator with arena := s.animator.arena.mapTimelines Timeline.supported } }

variable {s : Stage} {main : Timeline} {options : Options} {d : Document}

theorem setting_supported (s : Stage) : s.supported.setting = s.setting.supported := by
  have hresolve : s.supported.library.resolve = s.setting.supported.resolve :=
    funext s.library.resolve_supported
  simp only [setting, hresolve]
  rfl

theorem tick_supported (s : Stage) :
    s.supported.tick = (s.tick.1.supported, s.tick.2.map Event.uncounted) := by
  have hplayed : s.supported.played = (s.played.1, s.played.2.supported) := by
    unfold played
    have hbegin : Run.mk s.supported.animator.arena #[] = Run.supported ⟨s.animator.arena, #[]⟩ := by
      simp [Run.supported, supported]
    rw [setting_supported, hbegin]
    exact play_supported s.setting s.animator.root s.root ⟨s.animator.arena, #[]⟩
  rw [tick_eq, tick_eq, hplayed]
  simp only [Run.supported, Array.toList_map]
  rfl

theorem advance_supported (n : Nat) (s : Stage) : s.supported.advance n = (s.advance n).supported := by
  induction n with
  | zero => rfl
  | succ n ih => rw [advance_succ, advance_succ, ih, tick_supported]

theorem record_supported (n : Nat) (s : Stage) (events : Array Event) :
    (s.supported.record n (events.map Event.uncounted)).2 =
      (s.record n events).2.map Event.uncounted := by
  induction n with
  | zero => rfl
  | succ n ih =>
    rw [record_succ, record_succ, ih, advance_supported, tick_supported, ← Array.toList_inj]
    simp

theorem start_supported (library : Library) (main : Timeline) (options : Options) :
    start library.supported main.supported options = (start library main options).supported := by
  have hempty : Arena.mapTimelines Timeline.supported {} = {} := by simp [Arena.mapTimelines]
  have halloc := Arena.alloc_mapTimelines (f := Timeline.supported) {} main none 0
  rw [hempty] at halloc
  simp only [start, supported, Animator.start, halloc]

/-- All frames recorded, and all animators then live, are of timelines that were started. -/
theorem counted_record (library : Library) (main : Timeline) (options : Options) (n : Nat) :
    let s := start library main options
    Run.Counted s.setting [(s.animator.root, main)]
      ⟨(s.advance n).animator.arena, (s.record n #[]).2⟩ := by
  intro s
  induction n with
  | zero =>
    refine ⟨fun {h x} hx => ?_, fun e he => absurd he List.not_mem_nil⟩
    have hx : (Arena.alloc {} main none 0).2.get? h = some x := hx
    rcases Arena.get?_of_get?_alloc hx with ⟨rfl, rfl⟩ | hx
    · exact List.mem_singleton_self _
    · simp [Arena.get?, Arena.lookup] at hx
  | succ n ih =>
    -- the play of the tick starts with no events, and with the animators started so far
    have hbegin : Run.Counted s.setting
        ([(s.animator.root, main)] ++ started s.library.resolve (s.record n #[]).2.toList)
        ⟨(s.advance n).animator.arena, #[]⟩ :=
      ⟨fun hx => List.mem_append_left _ (ih.live hx), fun e he => absurd he List.not_mem_nil⟩
    have hplayed := playChain_counted s.setting _
      (nestingBound s.setting (s.advance n).root) s.animator.root (s.advance n).root hbegin
    have hrun : (s.advance n).played =
        play s.setting s.animator.root (s.advance n).root ⟨(s.advance n).animator.arena, #[]⟩ := by
      rw [played, setting_advance, root_advance]
    have htrace : (s.record (n + 1) #[]).2.toList =
        (s.record n #[]).2.toList ++ (s.advance n).played.2.events.toList := by
      rw [record_succ, tick_eq, Array.toList_appendList]
    have hcast : Run.cast s.setting [(s.animator.root, main)]
        ⟨(s.advance (n + 1)).animator.arena, (s.record (n + 1) #[]).2⟩ =
        (s.advance n).played.2.cast s.setting
          ([(s.animator.root, main)] ++ started s.library.resolve (s.record n #[]).2.toList) := by
      rw [Run.cast, Run.cast, htrace, started_append, List.append_assoc]
      rfl
    have hplayed : (s.advance n).played.2.Counted s.setting
        ([(s.animator.root, main)] ++ started s.library.resolve (s.record n #[]).2.toList) :=
      hrun ▸ hplayed
    refine ⟨fun hx => ?_, fun e he => ?_⟩
    · rw [hcast]
      rw [advance_succ, tick_eq] at hx
      exact hplayed.live hx
    · rw [hcast]
      rw [htrace, List.mem_append] at he
      rcases he with he | he
      · exact (ih.events e he).mono (List.subset_append_left _ _)
      · exact hplayed.events e he

/-- Commands of unknown type change neither the tree nor the arena nor the events, but for the numbers of
them. -/
theorem unsupported_never_matters (hs : ofDocument d options = .ok s) :
    (∀ source, Document.compile source = .ok d → Document.compile source.supported = .ok d.supported) ∧
    ∃ s' main, ofDocument d.supported options = .ok s' ∧ d.main = some main ∧ ∀ n,
      (s'.advance n).root = (s.advance n).root ∧
      (s'.advance n).animator.root = (s.advance n).animator.root ∧
      (s'.advance n).animator.arena =
        (s.advance n).animator.arena.mapTimelines Timeline.supported ∧
      (s'.record n #[]).2 = (s.record n #[]).2.map Event.uncounted ∧
      ∀ e, .frame e ∈ (s.record n #[]).2 → ∃ t f,
        (e.animator, t) ∈ (s.animator.root, main) :: started s.library.resolve (s.record n #[]).2.toList ∧
          t.frames[e.frame]? = some f ∧ e.unsupported = f.commands.countP (·.command?.isNone) := by
  refine ⟨fun _ => Document.compile_supported, ?_⟩
  unfold ofDocument at hs
  cases hmain : d.main with
  | none =>
    rw [hmain] at hs
    cases hs
  | some main =>
    rw [hmain] at hs
    cases hs
    have hmain' : d.supported.main = some main.supported := congrArg (Option.map _) hmain
    refine ⟨(start d.library main options).supported, main, ?_, rfl, fun n => ?_⟩
    · rw [ofDocument, hmain', ← start_supported]
      rfl
    · rw [advance_supported]
      refine ⟨rfl, rfl, rfl, ?_, fun e he => ?_⟩
      · have hrecord := record_supported n (start d.library main options) #[]
        rwa [Array.map_empty] at hrecord
      · exact (counted_record d.library main options n).events (.frame e) (Array.mem_toList_iff.mpr he)

def annotatedClips (l : Library) : Document where
  library :=
    let clip : Timeline :=
      ⟨[⟨.unsupported "Note" :: (placing ⟨2⟩ ⟨7⟩).commands⟩, ⟨[.unsupported "Sound"]⟩]⟩
    { l with timelines := (nestedClips l).library.timelines.insert ⟨1⟩ clip }
  main := some ⟨[⟨(placing ⟨1⟩ ⟨5⟩).commands ++ [.unsupported "Note"]⟩, {}]⟩

/-- The third tick is in a further round of the main timeline and of the clip in it. -/
theorem annotatedClips_play_the_same : ∃ s s', ofDocument (annotatedClips {}) = .ok s ∧
    ofDocument (annotatedClips {}).supported = .ok s' ∧
    (s'.advance 3).root = (s.advance 3).root ∧
    (s.advance 3).root.handles = [⟨1, 0⟩, ⟨2, 0⟩] ∧
    (s'.record 3 #[]).2 = (s.record 3 #[]).2.map Event.uncounted ∧
    (s.record 3 #[]).2.toList.filterMap
      (fun | .frame e => some (e.animator, e.unsupported) | _ => none) =
        [(⟨0, 0⟩, 1), (⟨1, 0⟩, 1), (⟨2, 0⟩, 0), (⟨2, 0⟩, 0), (⟨1, 0⟩, 1), (⟨0, 0⟩, 0),
          (⟨2, 0⟩, 0), (⟨1, 0⟩, 1), (⟨0, 0⟩, 1)] := by
  obtain ⟨s, hs⟩ : ∃ s, ofDocument (annotatedClips {}) = .ok s := ⟨_, rfl⟩
  obtain ⟨-, s', main, hs', -, hsame⟩ := unsupported_never_matters hs
  obtain ⟨hroot, -, -, htrace, -⟩ := hsame 3
  cases hs
  exact ⟨_, s', rfl, hs', hroot, by decide +kernel, htrace, by decide +kernel⟩

end SceneReel.Stage
