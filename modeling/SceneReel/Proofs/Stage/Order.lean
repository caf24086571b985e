import SceneReel.Proofs.Animator.Session
import SceneReel.Proofs.Playback.CascadePlay
import SceneReel.Proofs.Stage.Nested

/-!
The order of events in a tick: every animator plays once, after those below it, and one that starts in
the tick plays at once.
-/
namespace SceneReel

open Node (carriedAll)
open Arena (Forest Descends)

theorem Shows.paced {resolve : CharId → Option Resolved} {a : Arena} {β : Handle → Nat} {σ e j : Nat}
    {t : Timeline} {h : Handle} {cs : List Node} (hs : Shows resolve a β σ e t j h cs) :
    Paced a (h :: carriedAll cs) := by
  induction e using Nat.strongRecOn generalizing t j h cs with
  | ind e ih =>
    intro k hk x hx
    rcases List.mem_cons.mp hk with rfl | hk
    · obtain ⟨⟨y, hy, rfl, hcursor, -⟩, -, -⟩ := shows_iff.mp hs
      rw [hy] at hx
      cases hx
      rw [hcursor]
      exact Scene.cursor_after_le resolve e _ j
    · obtain ⟨c, hc, hk⟩ := Node.mem_carriedAll.mp hk
      rcases hs.below hc with ⟨g, e', u, i, hg, rfl, hclip, -⟩ | ⟨hg, hempty⟩
      · rw [Node.carried_eq, hg] at hk
        exact ih e' (Nat.lt_succ_self e') hclip k hk x hx
      · rw [Node.carried_eq, hg, Node.handles, hempty] at hk
        cases hk

/-- The order of the events that a tick reports, which began with the animators of an arena. -/
structure TickOrder (resolve : CharId → Option Resolved) (a : Arena) (events : List Event) : Prop where
  /-- An animator plays a frame if it was live and its timeline has any, and one more for each start. -/
  once : ∀ h, events.countP (·.isFrameOf h) =
    (if a.awake h then 1 else 0) + events.countP (·.startsAwake resolve h)
  /-- The frame of an animator comes after blocks of its children, in their order, and the block of a
  child has the frames of all that were live and descend from it. -/
  nested : ∀ h x, a.get? h = some x → x.timeline.frameCount ≠ 0 → ∃ pre block f post,
    events = pre ++ (x.children.flatMap block ++ .frame f :: post) ∧ f.animator = h ∧
      ∀ g ∈ x.children, ∀ k, Descends a.slots g k → a.awake k = true →
        ∃ f', .frame f' ∈ block g ∧ f'.animator = k
  /-- An animator starts after the frame of its parent, and plays before the command that starts it is
  reported. -/
  spawned : ∀ pre parent child object char post,
    events = pre ++ .spawn parent child object char :: post →
      (∃ f, .frame f ∈ pre ∧ f.animator = parent) ∧ Placed resolve parent child object char post

/-- Where a handle stands for one animator at most, it has played once or not at all. -/
theorem TickOrder.once_of_le_one {resolve : CharId → Option Resolved} {a : Arena}
    {events : List Event} {h : Handle} (ho : TickOrder resolve a events)
    (hone : (if a.awake h then 1 else 0) + events.countP (·.startsAwake resolve h) ≤ 1) :
    events.countP (·.isFrameOf h) =
      if a.awake h || events.any (·.startsAwake resolve h) then 1 else 0 := by
  rw [ho.once h]
  cases hawake : a.awake h with
  | true =>
    rw [hawake, if_pos rfl] at hone
    rw [Bool.true_or, if_pos rfl]
    omega
  | false =>
    rw [hawake, if_neg Bool.false_ne_true, Nat.zero_add] at hone
    rw [Bool.false_or, if_neg Bool.false_ne_true, Nat.zero_add]
    cases hany : events.any (·.startsAwake resolve h) with
    | true =>
      have hpos := List.countP_pos_iff.mpr (List.any_eq_true.mp hany)
      rw [if_pos rfl]
      omega
    | false =>
      rw [if_neg Bool.false_ne_true, List.countP_eq_zero]
      exact fun e he hawakes => absurd (List.any_eq_true.mpr ⟨e, he, hawakes⟩) (by simp [hany])

theorem Cascade.tickOrder {resolve : CharId → Option Resolved} {a : Arena} {root : Handle}
    {events : List Event} (hc : Cascade resolve a root events) (hf : Forest a.slots)
    (hall : ∀ h x, a.get? h = some x → Descends a.slots root h) : TickOrder resolve a events where
  once h := by
    obtain ⟨hone, hnone⟩ := hc.count_frames hf h
    by_cases hawake : a.awake h = true
    · rw [if_pos hawake]
      obtain ⟨x, hx, -⟩ := Arena.awake_iff.mp hawake
      exact hone ⟨hall h x hx, hawake⟩
    · rw [if_neg hawake, Nat.zero_add]
      exact hnone fun hboth => hawake hboth.2
  nested h x hx hcount := by
    obtain ⟨pre, block, f, post, he, hf, hbelow⟩ := hc.nested (hall h x hx) hx hcount
    exact ⟨pre, block, f, post, he, hf, fun g hg k hd hk => (hbelow g hg).exists_frame hd hk⟩
  spawned _ _ _ _ _ _ he := hc.spawned he

theorem countP_startsAwake_le (resolve : CharId → Option Resolved) (h : Handle) (events : List Event) :
    events.countP (·.startsAwake resolve h) ≤ ((started resolve events).map Prod.fst).count h := by
  induction events with
  | nil => exact Nat.le_refl _
  | cons e events ih =>
    rw [← List.singleton_append, List.countP_append, started_append, List.map_append,
      List.count_append]
    refine Nat.add_le_add ?_ ih
    cases e with
    | spawn parent child object char =>
      cases hchar : resolve char with
      | none => simp [Event.startsAwake, hchar]
      | some resolved =>
        cases resolved with
        | timeline t =>
          have hstarted : (started resolve [.spawn parent child object char]).map Prod.fst =
              [child] := by simp [started, hchar]
          rw [hstarted, List.countP_singleton, List.count_singleton, Event.startsAwake_spawn hchar]
          by_cases hc : child = h
          · rw [if_pos (beq_iff_eq.mpr hc)]
            split <;> omega
          · simp [hc]
        | _ => simp [Event.startsAwake, hchar]
    | _ => simp [Event.startsAwake]

namespace Stage

variable {s : Stage} {library : Library} {main : Timeline} {options : Options}

theorem resolve_advance (n : Nat) (s : Stage) :
    (s.advance n).library.resolve = s.library.resolve :=
  congrArg Setting.resolve (setting_advance n s)

/-- What a tick reports is a cascade of the animators that were live when it began. -/
theorem tick_cascades (hs : s = start library main options) (n : Nat)
    (hfit : (s.advance (n + 1)).animator.arena.Fits) :
    Cascade s.library.resolve (s.advance n).animator.arena s.animator.root (s.advance n).tick.2 := by
  have hprev := fits_of_fits hfit (Nat.le_succ n)
  have hcoherent := (hs ▸ coherent_start library main options : s.Coherent main).advance n hprev
  have hshows := shows_advance (fun _ => 0) hs rfl n hprev
  have hroot := root_advance n s
  rw [advance_succ] at hfit
  rw [← hroot, ← resolve_advance n s]
  generalize s.advance n = s' at *
  obtain ⟨es, hes, hcascade, -⟩ :=
    (playChain_cascades s'.setting main (nestingBound s'.setting s'.root)).plays
      (e := s'.setting.options.maxNestingDepth) (r := ⟨s'.animator.arena, #[]⟩)
      (by unfold nestingBound; omega) (Nat.zero_add _) hcoherent.tree hfit hshows.paced
  have he : s'.tick.2 = es := Eq.trans hes (List.nil_append es)
  rwa [he]

/-- The animators of a stage are those of a session that passes its tree at each tick. -/
theorem exists_session (hs : s = start library main options) (n : Nat) :
    ∃ σ, Session.Reached (fun _ _ => True) main options σ ∧
      σ.animator = (s.advance n).animator ∧ σ.events = (s.record n #[]).2.toList ∧
      σ.cast = (s.animator.root, main) :: started s.library.resolve (s.record n #[]).2.toList := by
  induction n with
  | zero =>
    subst hs
    exact ⟨_, .start, rfl, rfl, rfl⟩
  | succ n ih =>
    obtain ⟨σ, hσ, hanimator, hevents, hcast⟩ := ih
    have hresolve := resolve_advance n s
    have htick : (s.advance n).tick.2 =
        (σ.animator.tick s.library.resolve (s.advance n).root).2.2 := by
      rw [hanimator, ← hresolve]
      rfl
    refine ⟨_, .play s.library.resolve (s.advance n).root hσ trivial, ?_, ?_, ?_⟩
    · rw [advance_succ, Session.play, hanimator, ← hresolve]
      rfl
    · rw [record_succ, Array.toList_appendList, htick, ← hevents]
      rfl
    · rw [record_succ, Array.toList_appendList, htick, started_append, ← List.cons_append, ← hcast]
      rfl

def givenOut (s : Stage) : List Handle :=
  (started s.library.resolve s.tick.2).map Prod.fst

theorem exists_numbered (hs : s = start library main options) (n : Nat)
    (hfit : (s.advance (n + 1)).animator.arena.Fits) : ∃ issued,
    (s.advance n).animator.arena.Numbered issued ∧
    (s.advance (n + 1)).animator.arena.Numbered (issued ++ (s.advance n).givenOut) := by
  obtain ⟨σ, hσ, hanimator, -, hcast⟩ := exists_session hs n
  obtain ⟨σ', hσ', hanimator', -, hcast'⟩ := exists_session hs (n + 1)
  have hsplit : σ'.cast.map Prod.fst = σ.cast.map Prod.fst ++ (s.advance n).givenOut := by
    rw [hcast', record_succ, Array.toList_appendList, started_append, ← List.cons_append, ← hcast,
      List.map_append, givenOut, resolve_advance]
  have hbefore := fits_of_fits hfit (Nat.le_succ n)
  rw [← hanimator] at hbefore
  rw [← hanimator'] at hfit
  rw [← hanimator, ← hanimator']
  exact ⟨_, hσ.numbered hbefore, hsplit ▸ hσ'.numbered hfit⟩

/-- No handle stands for two animators of a tick, unless a slot uses up its generations in that tick. -/
theorem awake_add_startsAwake_le_one (hs : s = start library main options) (n : Nat)
    (hfit : (s.advance (n + 1)).animator.arena.Fits)
    (hspare : ∀ i, (s.advance n).givenOut.countP (·.index = i) < UInt32.size) (h : Handle) :
    (if (s.advance n).animator.arena.awake h then 1 else 0) +
      (s.advance n).tick.2.countP (·.startsAwake s.library.resolve h) ≤ 1 := by
  obtain ⟨issued, hnow, hnext⟩ := exists_numbered hs n hfit
  rw [← resolve_advance n s]
  have hstarts := countP_startsAwake_le (s.advance n).library.resolve h (s.advance n).tick.2
  have hnodup := hnext.nodup_later fun i => Nat.le_of_lt (hspare i)
  split
  · obtain ⟨x, hx, -⟩ := Arena.awake_iff.mp ‹_›
    have hnone := List.count_eq_zero.mpr (hnow.not_mem_later hnext hx (hspare h.index))
    exact Nat.add_le_add_left (hstarts.trans (Nat.le_of_eq hnone)) 1
  · rw [Nat.zero_add]
    exact hstarts.trans (List.nodup_iff_count_le_one.mp hnodup h)

/-- In a tick, who is live or starts plays once, if it has frames: children before parents, new ones
before their placement is reported. -/
theorem tick_in_order {document : Document} (hs : ofDocument document options = .ok s) (n : Nat)
    (hfit : (s.advance (n + 1)).animator.arena.Fits) :
    TickOrder s.library.resolve (s.advance n).animator.arena (s.advance n).tick.2 ∧
    (∀ h x, (s.advance n).animator.arena.get? h = some x →
      x.children.Sublist (offspring h (s.record n #[]).2.toList)) ∧
    ((∀ i, (s.advance n).givenOut.countP (·.index = i) < UInt32.size) → ∀ h,
      (s.advance n).tick.2.countP (·.isFrameOf h) =
        if (s.advance n).animator.arena.awake h ||
          (s.advance n).tick.2.any (·.startsAwake s.library.resolve h) then 1 else 0) := by
  obtain ⟨main, hmain, hstart⟩ := coherent_ofDocument hs
  have heq : s = start document.library main options := by
    rw [ofDocument, hmain] at hs
    cases hs
    rfl
  have hprev := fits_of_fits hfit (Nat.le_succ n)
  have hnow := hstart.advance n hprev
  have horder : TickOrder s.library.resolve (s.advance n).animator.arena (s.advance n).tick.2 := by
    refine (tick_cascades heq n hfit).tickOrder hnow.tree.wellFormed.forest fun h x hx => ?_
    rw [← root_advance n s]
    exact hnow.tree.driven.descends_iff.mpr (hnow.all hx)
  obtain ⟨σ, hσ, hanimator, hevents, hcast⟩ := exists_session heq n
  refine ⟨horder, fun h x hx => ?_, fun hspare h => ?_⟩
  · rw [← hevents]
    rw [← hanimator] at hprev hx
    have hsub := hσ.inOrder.sublist hprev hx
    rwa [show σ.run.events.toList = [] from rfl, List.append_nil] at hsub
  · have hone := awake_add_startsAwake_le_one heq n hfit hspare h
    exact horder.once_of_le_one hone

/-- A clip starts while another plays: the second frame places a clip beside the first. -/
def staggered (l : Library) : Document where
  library := (nestedClips l).library
  main := some ⟨[placing ⟨1⟩ ⟨5⟩, placing ⟨1⟩ ⟨6⟩]⟩

theorem staggered_in_order : ∃ s, ofDocument (staggered {}) = .ok s ∧
    (s.advance 1).tick.2.filterMap
        (fun | .frame f => some f.animator | _ => none) = [⟨2, 0⟩, ⟨1, 0⟩, ⟨0, 0⟩, ⟨3, 0⟩, ⟨4, 0⟩] ∧
    TickOrder s.library.resolve (s.advance 1).animator.arena (s.advance 1).tick.2 ∧
    ∀ h, (s.advance 1).tick.2.countP (·.isFrameOf h) =
      if (s.advance 1).animator.arena.awake h ||
        (s.advance 1).tick.2.any (·.startsAwake s.library.resolve h) then 1 else 0 := by
  let s : Stage := start (staggered {}).library ⟨[placing ⟨1⟩ ⟨5⟩, placing ⟨1⟩ ⟨6⟩]⟩
  have hs : ofDocument (staggered {}) = .ok s := rfl
  obtain ⟨horder, -, honce⟩ := tick_in_order hs 1 (by decide +kernel)
  refine ⟨s, hs, by decide +kernel, horder, honce fun i => ?_⟩
  exact Nat.lt_of_le_of_lt List.countP_le_length (by decide +kernel)

/-- Once the slots have run out, an animator may play twice in a tick. -/
theorem crowded_plays_twice : ∃ s, ofDocument (crowding {} [.known secondClip]) = .ok s ∧
    ∃ h, 1 < s.tick.2.countP (·.isFrameOf h) := by
  obtain ⟨z, c, b, hshares⟩ := crowded_shares
  obtain ⟨pre, f, f', post, hevents, hf, hin, hf'⟩ := hshares.events
  refine ⟨_, ofDocument_crowding _ _, z, ?_⟩
  have hfirst : 0 < pre.countP (·.isFrameOf z) :=
    List.countP_pos_iff.mpr ⟨_, hin, decide_eq_true hf'⟩
  have hsecond : Event.isFrameOf z (.frame f) = true := decide_eq_true hf
  rw [hevents, List.countP_append, List.countP_cons, List.countP_cons_of_pos hsecond]
  omega

end Stage

end SceneReel
