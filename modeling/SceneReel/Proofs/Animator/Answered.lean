import SceneReel.Proofs.Playback.Bracketed

/-!
The trace of a play in a session, whatever tree the host passes: each frame in it is answered by the
commands of its plan, well bracketed.
-/
namespace SceneReel.Session

variable {σ : Session} {admits : Session → Node → Prop} {t : Timeline} {options : Options}

theorem Reached.traced (hσ : Reached admits t options σ) (s : Setting) :
    σ.run.Traced s σ.cast σ.animator.root σ.events := by
  induction hσ generalizing s with
  | start =>
    have hstart : Reached admits t options (Session.start t options) := .start
    refine ⟨.root t .empty, hstart.inOrder, fun h x hx => ?_, rfl⟩
    rw [cast_run]
    have halloc : (Arena.alloc {} t none 0).2.get? h = some x := hx
    rcases Arena.get?_of_get?_alloc halloc with ⟨rfl, rfl⟩ | hnone
    · exact List.mem_cons_self
    · simp [Arena.get?, Arena.lookup] at hnone
  | @play σ resolve target hσ hadmits ih =>
    have hend : (σ.played resolve target).2.Traced (σ.setting resolve) σ.cast σ.animator.root
        σ.events := playChain_keeps (Run.keeps_traced _ _ _ _) _ _ _ (ih _)
    have hnext : Reached admits t options (σ.play resolve target).2 :=
      .play resolve target hσ hadmits
    refine ⟨?_, hnext.inOrder, fun h x hx => ?_, ?_⟩
    · rw [cast_run]
      exact hnext.reached_arena
    · rw [cast_run]
      exact hend.staffed h x hx
    · rw [Run.issued, cast_run, Run.history, show (σ.play resolve target).2.run.events.toList = [] from
        rfl, List.append_nil]
      exact hend.issued

theorem Reached.unfolds (hσ : Reached admits t options σ) {resolve : CharId → Option Resolved}
    {target : Node} (hspare : (σ.play resolve target).2.Sparing) :
    ∃ tr, Unfolds (σ.setting resolve) (.animator σ.animator.root) target σ.run tr
      (σ.played resolve target).1 (σ.played resolve target).2 :=
  unfolds_play (hσ.traced _).reached σ.animator.root target hspare

/-- All that started in a session were started by someone who was there before. -/
theorem Reached.lineal (hσ : Reached admits t options σ) (hspare : σ.Sparing) :
    Lineal σ.animator.root σ.events := by
  induction hσ with
  | start =>
    intro pre h c object char post he
    cases pre <;> cases he
  | @play σ resolve target hσ _ ih =>
    obtain ⟨tr, htr⟩ := hσ.unfolds hspare
    have hroom : (σ.played resolve target).2.Sparing (σ.setting resolve) σ.cast := hspare
    refine htr.lineal hroom (hσ.traced _) (.refl _) trivial ?_
    rw [Run.history, show σ.run.events.toList = [] from rfl, List.append_nil]
    exact ih hspare.before

/-- Each frame that an animator reports is answered by the commands of its plan, in order; what lies
between is what they lead to. -/
theorem frames_answered (hσ : Reached admits t options σ) (resolve : CharId → Option Resolved)
    (target : Node) (hspare : (σ.play resolve target).2.Sparing) :
    ∃ trace, Unfolds (σ.setting resolve) (.animator σ.animator.root) target σ.run trace
        (σ.played resolve target).1 (σ.played resolve target).2 ∧
      (σ.play resolve target).2.events = σ.events ++ trace.map Report.event ∧
      ∀ pre e n post, trace = pre ++ ⟨.frame e, n⟩ :: post →
        ∃ u f, (e.animator, u) ∈ (σ.play resolve target).2.cast ∧ u.frames[e.frame]? = some f ∧
          Answered (σ.setting resolve) e n f post := by
  obtain ⟨trace, htrace⟩ := hσ.unfolds hspare
  have hroom : (σ.played resolve target).2.Sparing (σ.setting resolve) σ.cast := hspare
  have htraced := hσ.traced (σ.setting resolve)
  have hend := htrace.keeps (Run.keeps_traced _ _ _ _) htraced
  have hlineal := htrace.lineal hroom htraced (.refl _) trivial (by
    rw [Run.history, show σ.run.events.toList = [] from rfl, List.append_nil]
    exact hσ.lineal hspare.before)
  have hlineage : Lineage σ.animator.root ((σ.played resolve target).2.history σ.events) := by
    refine ⟨?_, hlineal⟩
    rw [← hend.issued]
    exact (Run.accounted_of_reached hend.reached).nodup hroom
  refine ⟨trace, htrace, congrArg (σ.events ++ ·) ?_, ?_⟩
  · exact htrace.emits
  · exact htrace.framed hroom hlineage htraced (.refl _) trivial

def paired : Timeline :=
  ⟨[⟨[.known (.place ⟨1⟩ ⟨5⟩ none .identity), .known (.place ⟨2⟩ ⟨6⟩ none .identity)]⟩]⟩

def smallClip : CharId → Option Resolved := fun char =>
  if char = ⟨1⟩ then some (.timeline ⟨[⟨[.known (.place ⟨2⟩ ⟨3⟩ none .identity)]⟩]⟩) else none

/-- On another target the next round removes one child, starts a second clip, and moves what is there. -/
theorem paired_frames_answered : ∃ (σ : Session) (target : Node),
    Reached (fun _ _ => True) paired { retireDetached := false } σ ∧
    target.childIds = [⟨7⟩, ⟨6⟩] ∧ (σ.play smallClip target).2.Sparing ∧
    (σ.played smallClip target).2.events.toList = [
      .frame ⟨⟨0, 0⟩, 0, true, 1, 4, 0⟩,
      .command ⟨0, 0⟩ .remove ⟨7⟩ .applied,
      .spawn ⟨0, 0⟩ ⟨2, 0⟩ ⟨5⟩ ⟨1⟩,
      .frame ⟨⟨2, 0⟩, 0, false, 0, 1, 0⟩,
      .command ⟨2, 0⟩ .place ⟨3⟩ .unresolved,
      .command ⟨0, 0⟩ .place ⟨5⟩ .applied,
      .command ⟨0, 0⟩ .move ⟨6⟩ .applied,
      .command ⟨0, 0⟩ .reorder ⟨6⟩ .applied] ∧
    ∃ trace, Unfolds (σ.setting smallClip) (.animator σ.animator.root) target σ.run trace
        (σ.played smallClip target).1 (σ.played smallClip target).2 ∧
      (σ.play smallClip target).2.events = σ.events ++ trace.map Report.event ∧
      ∀ pre e n post, trace = pre ++ ⟨.frame e, n⟩ :: post →
        ∃ u f, (e.animator, u) ∈ (σ.play smallClip target).2.cast ∧
          u.frames[e.frame]? = some f ∧ Answered (σ.setting smallClip) e n f post := by
  let σ := ((start paired { retireDetached := false }).play smallClip (.container ⟨0⟩)).2
  let target : Node := { Node.container ⟨0⟩ with children := [.container ⟨7⟩, .container ⟨6⟩] }
  have hσ : Reached (fun _ _ => True) paired { retireDetached := false } σ := .play _ _ .start trivial
  have hfit : (σ.play smallClip target).2.animator.arena.Fits := by decide +kernel
  have hspare : (σ.play smallClip target).2.Sparing :=
    sparing_of_length hfit (by decide +kernel)
  exact ⟨σ, target, hσ, rfl, hspare, by decide +kernel, frames_answered hσ smallClip target hspare⟩

end SceneReel.Session
