import SceneReel.Animator.Basic
import SceneReel.Proofs.Playback.Cast

/-!
Sessions: an animator plays again and again, each time on whatever target and with whatever library the
host passes. A session remembers the animators that were started in it and all that was reported.
-/
namespace SceneReel

structure Session where
  animator : Animator
  /-- All animators ever started, each with its timeline. -/
  cast : List (Handle × Timeline)
  events : List Event := []

namespace Session

def start (t : Timeline) (options : Options) : Session where
  animator := .start t options
  cast := [((Animator.start t options).root, t)]

def play (σ : Session) (resolve : CharId → Option Resolved) (target : Node) : Node × Session :=
  let (target, animator, events) := σ.animator.tick resolve target
  (target, { animator, cast := σ.cast ++ started resolve events, events := σ.events ++ events })

/-- The sessions of a timeline, the host passing only targets that are admitted at their point. -/
inductive Reached (admits : Session → Node → Prop) (t : Timeline) (options : Options) :
    Session → Prop
  | start : Reached admits t options (start t options)
  | play {σ : Session} (resolve : CharId → Option Resolved) (target : Node) :
    Reached admits t options σ → admits σ target → Reached admits t options (σ.play resolve target).2

/-- The arena has room and generations left for what was started. -/
def Sparing (σ : Session) : Prop :=
  SceneReel.Sparing σ.animator.arena σ.cast

def setting (σ : Session) (resolve : CharId → Option Resolved) : Setting :=
  ⟨resolve, σ.animator.options⟩

def run (σ : Session) : Run :=
  { arena := σ.animator.arena }

def played (σ : Session) (resolve : CharId → Option Resolved) (target : Node) : Node × Run :=
  SceneReel.play (σ.setting resolve) σ.animator.root target σ.run

variable {σ : Session} {admits : Session → Node → Prop} {t : Timeline} {options : Options}

theorem animator_play (σ : Session) (resolve : CharId → Option Resolved) (target : Node) :
    (σ.play resolve target).2.animator =
      { σ.animator with arena := (σ.played resolve target).2.arena } := rfl

theorem cast_run (σ : Session) (s : Setting) : σ.run.cast s σ.cast = σ.cast :=
  List.append_nil _

theorem sparing_run {s : Setting} : σ.run.Sparing s σ.cast ↔ σ.Sparing := by
  rw [Run.Sparing, cast_run]
  rfl

theorem later_played (σ : Session) (resolve : CharId → Option Resolved) (target : Node) :
    Run.Later σ.run (σ.played resolve target).2 :=
  playChain_keeps (Run.keeps_later _ σ.run) _ _ _ (.refl _)

theorem Sparing.before {resolve : CharId → Option Resolved} {target : Node}
    (h : (σ.play resolve target).2.Sparing) : σ.Sparing := by
  have h : (σ.played resolve target).2.Sparing (σ.setting resolve) σ.cast := h
  exact sparing_run.mp (h.earlier (σ.later_played resolve target))

/-- The arena of every session is sound, and has given out the handles of those started. -/
theorem Reached.accounted (hσ : Reached admits t options σ) (s : Setting) :
    σ.run.Accounted s σ.cast := by
  induction hσ with
  | start =>
    refine ⟨Arena.Stored.empty.alloc t none 0, fun hfit => ?_⟩
    rw [cast_run]
    have hempty : Arena.Numbered {} [] := ⟨fun _ => rfl, fun _ => by simp [Arena.generationsOf]⟩
    exact hempty.alloc Arena.Stored.empty hfit
  | @play σ resolve target _ _ ih =>
    have hend : (σ.played resolve target).2.Accounted (σ.setting resolve) σ.cast := by
      refine playChain_keeps (Run.keeps_accounted _ _) _ _ _ ?_
      exact ⟨ih.stored, by simpa only [cast_run] using ih.numbered⟩
    refine ⟨hend.stored, ?_⟩
    rw [cast_run]
    exact hend.numbered

theorem Reached.numbered (hσ : Reached admits t options σ) (hfit : σ.animator.arena.Fits) :
    σ.animator.arena.Numbered (σ.cast.map Prod.fst) := by
  have hnumbered := (hσ.accounted (σ.setting fun _ => none)).numbered hfit
  rwa [cast_run] at hnumbered

theorem Reached.nodup (hσ : Reached admits t options σ) (hspare : σ.Sparing) :
    (σ.cast.map Prod.fst).Nodup := by
  have s : Setting := σ.setting fun _ => none
  have hnodup := (hσ.accounted s).nodup (sparing_run.mpr hspare)
  rwa [cast_run] at hnodup

/-- The animators of every session list their children in the order in which they were started. -/
theorem Reached.inOrder (hσ : Reached admits t options σ) : σ.run.InOrder σ.events := by
  induction hσ with
  | start =>
    refine ⟨Arena.Stored.empty.alloc t none 0, fun hfit {h x} hx => ?_⟩
    have hget := (Arena.Stored.empty.get?_alloc hfit).2 h
    rw [show (Arena.alloc {} t none 0).2.get? h = some x from hx] at hget
    split at hget
    · cases hget
      exact List.nil_sublist _
    · exact absurd hget.symm (by simp [Arena.get?, Arena.lookup])
  | @play σ resolve target _ _ ih =>
    have hend : (σ.played resolve target).2.InOrder σ.events :=
      playChain_keeps (Run.keeps_inOrder (σ.setting resolve) σ.events) _ _ _ ih
    refine ⟨hend.stored, fun hfit {h x} hx => (hend.sublist hfit hx).trans ?_⟩
    rw [show (σ.play resolve target).2.run.events.toList = [] from rfl, List.append_nil]
    exact .refl _

end Session

end SceneReel
