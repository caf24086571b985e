import SceneReel.Proofs.Animator.Session
import SceneReel.Proofs.Playback.LapsPlay

/-!
Laps over a session: every animator plays its frames in order, round by round, through all that the host
does to the targets in between, and its cursor tells between any two plays how many frames have come.
-/
namespace SceneReel.Session

variable {σ : Session} {admits : Session → Node → Prop} {t : Timeline} {options : Options}

/-- Between plays no animator is busy. -/
theorem Reached.tally (hσ : Reached admits t options σ) (hspare : σ.Sparing) (s : Setting) :
    σ.run.Tally s σ.cast σ.events [] := by
  induction hσ generalizing s with
  | start =>
    have hfit : (Arena.alloc {} t none 0).2.Fits := hspare.1
    refine ⟨fun _ => .nil _, fun _ => rfl, fun _ => nofun, fun {h x} hx => ?_⟩
    rw [cast_run]
    have hget := (Arena.Stored.empty.get?_alloc hfit).2 h
    rw [show (Arena.alloc {} t none 0).2.get? h = some x from hx] at hget
    split at hget
    case isTrue he =>
      cases hget
      exact ⟨List.mem_singleton.mpr (by rw [he]; rfl), rfl⟩
    case isFalse => exact absurd hget.symm (by simp [Arena.get?, Arena.lookup])
  | @play σ resolve target hσ hadmits ih =>
    have hend := ((playChain_tally (σ.setting resolve) σ.cast σ.events Prod.mk
      (nestingBound (σ.setting resolve) target)).plays (hσ.accounted _)
      (ih hspare.before (σ.setting resolve)) hspare List.not_mem_nil (.inl rfl)).2
    have hcast := cast_run (σ.play resolve target).2 s
    have hframes : ∀ h, (σ.play resolve target).2.run.framesOf (σ.play resolve target).2.events h =
        (σ.played resolve target).2.framesOf σ.events h := fun h =>
      congrArg (framesOf h) (List.append_nil _)
    refine ⟨fun hin => ?_, fun hout => ?_, fun _ => nofun, fun hx => ?_⟩
    · rw [hcast] at hin
      rw [hframes]
      exact hend.inLaps hin
    · rw [hcast] at hout
      rw [hframes]
      exact hend.silent hout
    · rw [hcast, hframes]
      exact hend.live hx

/-- The frames of every animator come in laps, and the cursor of a live one tells how many it has played.
-/
theorem frames_in_laps (hσ : Reached admits t options σ) (hspare : σ.Sparing) :
    (σ.cast.map Prod.fst).Nodup ∧
    (∀ h u, (h, u) ∈ σ.cast → InLaps u (framesOf h σ.events)) ∧
    (∀ h x, σ.animator.arena.get? h = some x → (h, x.timeline) ∈ σ.cast ∧
      x.cursor = cursorAfter x.timeline.frameCount (framesOf h σ.events).length ∧
      x.cursor ≤ x.timeline.frameCount) ∧
    ∀ resolve target missing, (σ.play resolve target).2.Sparing →
      playOr missing (σ.setting resolve) σ.animator.root target σ.run = σ.played resolve target := by
  let s : Setting := σ.setting fun _ => none
  have htally := hσ.tally hspare s
  have hframes : ∀ h, σ.run.framesOf σ.events h = framesOf h σ.events := fun h =>
    congrArg (framesOf h) (List.append_nil _)
  have hinLaps : ∀ {h u}, (h, u) ∈ σ.cast → InLaps u (framesOf h σ.events) := by
    intro h u hin
    rw [← hframes]
    rw [← cast_run σ s] at hin
    exact htally.inLaps hin
  refine ⟨hσ.nodup hspare, fun _ _ => hinLaps, fun h x hx => ?_, fun resolve target missing hroom => ?_⟩
  · obtain ⟨hin, hlap⟩ := htally.live hx
    rw [cast_run] at hin
    rw [hframes, if_neg List.not_mem_nil] at hlap
    refine ⟨hin, hlap, hlap ▸ cursorAfter_le fun hcount => ?_⟩
    rw [(hinLaps hin).empty hcount]
    rfl
  · exact ((playChain_tally (σ.setting resolve) σ.cast σ.events missing
      (nestingBound (σ.setting resolve) target)).plays (hσ.accounted _)
      (hσ.tally hspare (σ.setting resolve)) hroom List.not_mem_nil (.inl rfl)).1

def looping : Timeline :=
  ⟨[⟨[.known (.place ⟨1⟩ ⟨5⟩ none .identity)]⟩, {}]⟩

def oneClip : CharId → Option Resolved :=
  fun char => if char = ⟨1⟩ then some (.timeline ⟨[{}, {}, {}]⟩) else none

/-- The clip pauses while the host shows another target, on which a second one starts. -/
theorem paused_in_laps : ∃ σ : Session,
    Reached (fun _ _ => True) looping { retireDetached := false } σ ∧ σ.Sparing ∧
    σ.cast.map Prod.fst = [⟨0, 0⟩, ⟨1, 0⟩, ⟨2, 0⟩] ∧
    framesOf ⟨1, 0⟩ σ.events = [(0, false), (1, false), (2, false), (0, true)] ∧
    framesOf ⟨2, 0⟩ σ.events = [(0, false)] ∧
    (∀ h u, (h, u) ∈ σ.cast → InLaps u (framesOf h σ.events)) ∧
    ∀ h x, σ.animator.arena.get? h = some x →
      x.cursor = cursorAfter x.timeline.frameCount (framesOf h σ.events).length := by
  let clip : Node := { id := ⟨5⟩, kind := .clip ⟨1⟩ (some ⟨1, 0⟩) }
  let shown : Node := { Node.container ⟨0⟩ with children := [clip] }
  let σ₁ := ((start looping { retireDetached := false }).play oneClip (.container ⟨0⟩)).2
  let σ₂ := (σ₁.play oneClip shown).2
  let σ₃ := (σ₂.play oneClip (.container ⟨9⟩)).2
  let σ₄ := (σ₃.play oneClip shown).2
  let σ := (σ₄.play oneClip shown).2
  have hσ : Reached (fun _ _ => True) looping { retireDetached := false } σ :=
    .play _ _ (.play _ _ (.play _ _ (.play _ _ (.play _ _ .start trivial) trivial) trivial) trivial)
      trivial
  have hfit : σ.animator.arena.Fits := by decide +kernel
  have hspare : σ.Sparing := sparing_of_length hfit (by decide +kernel)
  obtain ⟨-, hlaps, hlive, -⟩ := frames_in_laps hσ hspare
  exact ⟨σ, hσ, hspare, by decide +kernel, by decide +kernel, by decide +kernel, hlaps,
    fun h x hx => (hlive h x hx).2.1⟩

end SceneReel.Session
