import SceneReel.Proofs.Animator.Kept
import SceneReel.Proofs.Animator.Tended
import SceneReel.Proofs.Arena.Operations
import SceneReel.Proofs.Arena.Paused
import SceneReel.Proofs.Playback.Doubling
import SceneReel.Proofs.Playback.Guarded
import SceneReel.Proofs.Playback.Lasting

/-!
Where detached animators do not retire, an animator without a node pauses: no play that does not show its
handle, or one below it, changes any of them. It ends only with an animator above whose node is removed.
-/
namespace SceneReel

open Arena (Descends)

variable {s : Setting} {r r' : Run} {a : Arena} {c : Handle}

namespace Run

theorem mem_events_retire_of_live (reason : RetireReason) {h : Handle} {x : Animation}
    (hx : r.arena.get? h = some x) :
    Event.retire h (r.arena.retire h).1 reason ∈ (r.retire reason h).events := by
  have hpos := Arena.retire_pos hx
  unfold retire
  generalize r.arena.retire h = out at hpos ⊢
  obtain ⟨slots, arena⟩ := out
  cases slots with
  | zero => cases hpos
  | succ slots => exact Array.mem_push_self

/-- The node of an animator above some other was removed. -/
def Loses (c : Handle) (a : Arena) (r : Run) : Prop :=
  ∃ g slots, Event.retire g slots .removed ∈ r.events ∧ g ≠ c ∧ Descends a.slots g c

theorem Loses.later (hr : Loses c a r) (hlater : Later r r') : Loses c a r' := by
  obtain ⟨g, slots, hin, habove⟩ := hr
  refine ⟨g, slots, ?_, habove⟩
  rw [← Array.mem_toList_iff] at hin ⊢
  exact hlater.events.subset hin

/-- What becomes of an animator that is none of those in play. -/
structure LeavesOut (c : Handle) (a : Arena) (r : Run) : Prop where
  kindred : r.Kindred
  left : r.Loses c a ∨ Arena.Paused c a r.arena

end Run

def Guard.undetached (hoff : s.options.retireDetached = false) : Guard s where
  barred := ∅
  may _ := Set.univ
  holds r := r.Undetached
  room _ := True
  room_earlier _ _ := trivial
  may_later _ := subset_rfl
  emit hr he := hr.emit fun h slots hretire => by
    rw [hretire] at he
    cases he
  retire {r} hr _ reason h _ hreason := by
    cases reason with
    | removed => exact hr.retire h
    | detached =>
      rw [hoff] at hreason
      cases hreason rfl
  start hr _ _ object _ :=
    ⟨hr.emit fun _ _ he => Event.noConfusion he, Set.notMem_empty _, Set.mem_univ _⟩
  modify hr _ _ _ _ := hr
  listed _ _ _ _ g _ := ⟨fun _ => Set.mem_univ g, fun _ => Set.notMem_empty g⟩

/-- An animator of which no node shows the handle, nor one below, is left out of play until one above is
lost. -/
def Guard.pausing (hoff : s.options.retireDetached = false)
    (hlive : ∀ k, Descends a.slots c k → ∃ x, a.get? k = some x) : Guard s where
  barred := {k | Descends a.slots c k}
  may _ := {h | ¬ Descends a.slots c h}
  holds r := r.LeavesOut c a
  room r := r.arena.Fits ∧ ¬ r.Loses c a
  room_earlier hlater := fun ⟨hfit, hkept⟩ =>
    ⟨Nat.le_trans hlater.slots hfit, fun hlost => hkept (hlost.later hlater)⟩
  may_later _ := subset_rfl
  emit {r e} hr he := ⟨(Run.keeps_kindred s).emit hr.kindred he,
    hr.left.imp_left (·.later ((Run.keeps_later s r).emit (.refl r) he))⟩
  retire {r} hr hroom reason h hh hreason := by
    refine ⟨(Run.keeps_kindred s).retire hr.kindred reason h, ?_⟩
    cases reason with
    | removed =>
      have hpaused := hr.left.resolve_left hroom.2
      rcases hpaused.retire (hr.kindred.kinship hroom.1) hlive hh with ⟨habove, ⟨x, hx⟩⟩ | hleft
      · refine .inl ⟨h, (r.arena.retire h).1, ?_, ?_, habove⟩
        · exact Run.mem_events_retire_of_live .removed hx
        · rintro rfl
          exact hh .refl
      · rw [Run.arena_retire]
        exact .inr hleft
    | detached =>
      rw [hoff] at hreason
      cases hreason rfl
  start {r owner char t} hr howner hchar object hroom := by
    obtain ⟨hfit, hkept⟩ := hroom
    have hpaused := hr.left.resolve_left fun hlost =>
      hkept (hlost.later ((Run.keeps_later s r).start (.refl r) hchar owner object))
    -- the handle is free, and those below the animator are in use
    have hnew : ¬ Descends a.slots c (r.arena.spawn t owner (r.spawnDepth owner)).1 := by
      intro hd
      obtain ⟨x, hx⟩ := hlive _ hd
      exact (hr.kindred.stored.get?_spawn_of_live hfit ((hpaused.same _ hd).trans hx)).1 rfl
    exact ⟨⟨(Run.keeps_kindred s).start hr.kindred hchar owner object,
      .inr (hpaused.spawn hr.kindred.stored hlive howner hfit)⟩, hnew, hnew⟩
  modify {r h} hr hroom hh f hf := by
    refine ⟨(Run.keeps_kindred s).modify hr.kindred h f hf,
      .inr ((hr.left.resolve_left hroom.2).modify hh fun x => ?_)⟩
    obtain ⟨k, he⟩ := hf x
    rw [he]
  listed _ _ _ _ g _ := ⟨fun hout => hout, fun hon => by
    rw [hoff] at hon
    cases hon⟩

namespace Session

variable {σ : Session} {target : Node} {t : Timeline} {options : Options}
  {resolve : CharId → Option Resolved} {admits : Session → Node → Prop}

theorem Reached.kindred (hσ : Reached admits t options σ) : σ.run.Kindred := by
  induction hσ with
  | start =>
    exact ⟨Arena.Stored.empty.alloc t none 0,
      fun hfit => (Arena.WellFormed.empty.alloc hfit).forest.kinship⟩
  | @play σ resolve target _ _ ih =>
    have hend : (σ.played resolve target).2.Kindred :=
      playChain_keeps (Run.keeps_kindred (σ.setting resolve)) _ _ _ ih
    exact ⟨hend.stored, hend.kinship⟩

theorem Reached.not_descends_root (hσ : Reached Unclaimed t options σ) (hc : c ≠ σ.animator.root) :
    ¬ Descends σ.animator.arena.slots c σ.animator.root := by
  intro hd
  obtain ⟨k, hroots⟩ := hσ.roots
  rcases hd.cases_tail with he | ⟨p, -, y, hy, hin⟩
  · exact hc he.symm
  · exact hroots.unlisted hy hin

/-- Where detached animators do not retire, a clip of which the target shows nothing pauses, unless an
animator above it loses its node. -/
theorem detached_clip_pauses (hσ : Reached admits t options σ)
    (hoff : options.retireDetached = false) {x : Animation}
    (hx : σ.animator.arena.get? c = some x)
    (hroot : ¬ Descends σ.animator.arena.slots c σ.animator.root)
    (hout : ∀ k, Descends σ.animator.arena.slots c k → k ∉ target.handles)
    (hfit : (σ.play resolve target).2.animator.arena.Fits) :
    (∀ h slots, Event.retire h slots .detached ∉ (σ.played resolve target).2.events) ∧
    ((∃ g slots, Event.retire g slots .removed ∈ (σ.played resolve target).2.events ∧ g ≠ c ∧
        Descends σ.animator.arena.slots g c ∧
        ∀ k, Descends σ.animator.arena.slots c k →
          (σ.play resolve target).2.animator.arena.get? k = none ∨
          k ∈ (started resolve (σ.played resolve target).2.events.toList).map Prod.fst) ∨
      ∀ k, Descends σ.animator.arena.slots c k → ∃ y, σ.animator.arena.get? k = some y ∧
        (σ.play resolve target).2.animator.arena.get? k = some y) := by
  let s := σ.setting resolve
  have hkindred := hσ.kindred
  have hbefore : σ.animator.arena.Fits := Nat.le_trans (σ.later_played resolve target).slots hfit
  have hlive : ∀ k, Descends σ.animator.arena.slots c k → ∃ y, σ.animator.arena.get? k = some y :=
    fun k hk => (hkindred.kinship hbefore).live hx hk
  have hdetach : s.options.retireDetached = false := by
    rw [← hσ.options_eq] at hoff
    exact hoff
  obtain ⟨hundetached, -⟩ := (playChain_heeds (Guard.undetached hdetach) (nestingBound s target)).plays
    (Set.mem_univ σ.animator.root) (n := target) (r := σ.run) (fun g _ => Set.notMem_empty g)
    (fun _ _ hin => Array.not_mem_empty _ hin) trivial
  refine ⟨hundetached, ?_⟩
  by_cases hlost : (σ.played resolve target).2.Loses c σ.animator.arena
  · obtain ⟨g, slots, hin, hne, habove⟩ := hlost
    have hstart : σ.run.Inherits s σ.animator.arena :=
      ⟨hkindred, fun _ _ _ _ hin => absurd hin (Array.not_mem_empty _), fun _ _ _ hl hk => ⟨hl, by
        obtain ⟨z, hz, -⟩ := hl
        exact ⟨⟨z, hz⟩, List.not_mem_nil⟩⟩⟩
    have hend : (σ.played resolve target).2.Inherits s σ.animator.arena :=
      playChain_keeps (Run.keeps_inherits s _) _ _ _ hstart
    refine .inl ⟨g, slots, hin, hne, habove, fun k hk => ?_⟩
    by_contra hno
    rw [not_or] at hno
    refine hend.not_lasts hfit hin (habove.trans hk) ⟨?_, hno.2⟩
    exact Option.ne_none_iff_exists'.mp hno.1
  · have hheeds := playChain_heeds (Guard.pausing hdetach hlive) (nestingBound s target)
    obtain ⟨hend, -⟩ := hheeds.plays (h := σ.animator.root) (n := target) (r := σ.run) hroot
      (fun g hg hd => hout g hd hg) ⟨hkindred, .inr (.refl c _)⟩ ⟨hfit, hlost⟩
    have hpaused := hend.left.resolve_left hlost
    refine .inr fun k hk => ?_
    obtain ⟨y, hy⟩ := hlive k hk
    exact ⟨y, hy, (hpaused.same k hk).trans hy⟩

/-- The host takes the node of the clip away: the clip and the one in it pause. -/
theorem hidden_clip_pauses : ∃ (σ : Session) (target : Node),
    Reached Unclaimed hosting { retireDetached := false } σ ∧ target.handles = [] ∧
    σ.animator.arena.size = 3 ∧ (σ.play clipInClip target).2.animator.arena.size = 3 ∧
    ∀ k, Descends σ.animator.arena.slots ⟨1, 0⟩ k → ∃ y, σ.animator.arena.get? k = some y ∧
      (σ.play clipInClip target).2.animator.arena.get? k = some y := by
  let σ := ((start hosting { retireDetached := false }).play clipInClip (.container ⟨0⟩)).2
  let target : Node := .container ⟨0⟩
  have hσ : Reached Unclaimed hosting { retireDetached := false } σ :=
    .play clipInClip _ .start List.not_mem_nil
  have hfit : (σ.play clipInClip target).2.animator.arena.Fits := by decide +kernel
  obtain ⟨x, hx⟩ : ∃ x, σ.animator.arena.get? ⟨1, 0⟩ = some x := Arena.isLive_iff.mp (by decide +kernel)
  have hout : ∀ k, Descends σ.animator.arena.slots ⟨1, 0⟩ k → k ∉ target.handles :=
    fun _ _ hin => List.not_mem_nil hin
  obtain ⟨-, hpauses⟩ := detached_clip_pauses hσ rfl hx (hσ.not_descends_root (by decide +kernel)) hout hfit
  refine ⟨σ, target, hσ, rfl, by decide +kernel, by decide +kernel, ?_⟩
  refine hpauses.resolve_left fun ⟨g, slots, _, _, _, hends⟩ => ?_
  have hlive : ((σ.play clipInClip target).2.animator.arena.get? ⟨1, 0⟩).isSome = true := by
    decide +kernel
  rcases hends ⟨1, 0⟩ .refl with hdead | hagain
  · rw [hdead] at hlive
    cases hlive
  · exact absurd hagain (by decide +kernel)

/-- Once the slots have run out, a clip of which the target shows nothing goes on when another starts. -/
theorem crowded_clip_goes_on :
    let resolve : CharId → Option Resolved := fun _ => some (.timeline doubling)
    let placing : Frame := ⟨[.known (.place ⟨1⟩ ⟨1⟩ none .identity)]⟩
    let target : Node := .container ⟨0⟩
    ∃ (σ : Session) (c : Handle) (x y : Animation),
      Reached Unclaimed ⟨[placing, placing]⟩ { retireDetached := false } σ ∧ target.handles = [] ∧
      c ≠ σ.animator.root ∧ σ.animator.arena.get? c = some x ∧
      (∀ h slots reason, Event.retire h slots reason ∉ (σ.played resolve target).2.events) ∧
      (σ.play resolve target).2.animator.arena.get? c = some y ∧ x.cursor ≠ y.cursor := by
  intro resolve placing target
  let s : Setting := ⟨resolve, { retireDetached := false }⟩
  obtain ⟨n, r, hfull, hplay⟩ := play_fills (s := s) rfl rfl ⟨[placing, placing]⟩ [] rfl
    { retireDetached := false } ⟨0⟩
  obtain ⟨l, hlive⟩ := hfull.root
  have hfirst : (start ⟨[placing, placing]⟩ { retireDetached := false }).played resolve target = _ :=
    hplay
  obtain ⟨σ, hσ, hsetting, hroot, harena⟩ : ∃ σ,
      Reached Unclaimed ⟨[placing, placing]⟩ { retireDetached := false } σ ∧ σ.setting resolve = s ∧
      σ.animator.root = ⟨0, 0⟩ ∧ σ.animator.arena = (r.advance ⟨0, 0⟩).arena := by
    have hσ : Reached Unclaimed ⟨[placing, placing]⟩ { retireDetached := false } _ :=
      .play resolve target .start List.not_mem_nil
    have hroot : (start ⟨[placing, placing]⟩ { retireDetached := false }).animator.root = ⟨0, 0⟩ := rfl
    generalize start ⟨[placing, placing]⟩ { retireDetached := false } = σ at hσ hroot hfirst
    refine ⟨_, hσ, ?_, ?_, ?_⟩
    · rw [setting, hσ.options_eq]
    · rw [animator_play, hroot]
    · rw [animator_play, hfirst]
      rfl
  have hexhausted : Exhausted 32 σ.animator.root σ.animator.arena := by
    rw [harena, hroot]
    exact hfull.exhausted.modify fun _ => rfl
  have hx := Run.get?_advance hlive
  rw [← harena, ← hroot] at hx
  obtain ⟨⟨y, z, hy, hz, hcursor⟩, hends⟩ :=
    play_full (s := s) (r := σ.run) rfl hexhausted hx rfl (.inl rfl) ⟨0⟩
  rw [← hsetting] at hz hends
  exact ⟨σ, σ.animator.arena.lastHandle, y, z, hσ, rfl, hexhausted.last_ne, hy,
    fun h slots reason hin => Array.not_mem_empty _ (hends h slots reason hin), hz, hcursor⟩

end Session

end SceneReel
