import SceneReel.Proofs.Animator.Tended
import SceneReel.Proofs.Arena.Census
import SceneReel.Proofs.Playback.Reached

/-!
The events account for every animator: over any play, as many are live afterwards as before, and those
started, less those that the retirements count.
-/
namespace SceneReel

namespace Event

def isSpawn : Event → Bool
  | .spawn .. => true
  | _ => false

def isRetire : Event → Bool
  | .retire .. => true
  | _ => false

def freed : Event → Nat
  | .retire _ slots _ => slots
  | _ => 0

end Event

def spawnCount (events : List Event) : Nat :=
  events.countP Event.isSpawn

/-- How many animators events report to be retired, those below others included. -/
def freedCount : List Event → Nat
  | [] => 0
  | e :: events => e.freed + freedCount events

@[simp] theorem spawnCount_append (events events' : List Event) :
    spawnCount (events ++ events') = spawnCount events + spawnCount events' :=
  List.countP_append

@[simp] theorem freedCount_append (events events' : List Event) :
    freedCount (events ++ events') = freedCount events + freedCount events' := by
  induction events with
  | nil => exact (Nat.zero_add _).symm
  | cons e events ih => rw [List.cons_append, freedCount, freedCount, ih, Nat.add_assoc]

namespace Run

theorem retire_eq (r : Run) (reason : RetireReason) (h : Handle) :
    r.retire reason h = if (r.arena.retire h).1 = 0 then r
      else Run.emit { r with arena := (r.arena.retire h).2 }
        (.retire h (r.arena.retire h).1 reason) := by
  unfold retire
  generalize r.arena.retire h = out
  obtain ⟨slots, arena⟩ := out
  cases slots <;> rfl

/-- Events that were emitted since a point with `live` animators account for those live now. -/
structure Balances (live : Nat) (emitted : List Event) (r : Run) : Prop where
  count : r.arena.size + freedCount emitted = live + spawnCount emitted
  pos : ∀ e ∈ emitted, e.isRetire → 1 ≤ e.freed

variable {live : Nat} {emitted : List Event} {r r' : Run}

theorem Balances.snoc (h : r.Balances live emitted) {e : Event}
    (hcount : r'.arena.size + e.freed = r.arena.size + spawnCount [e])
    (hpos : e.isRetire → 1 ≤ e.freed) : r'.Balances live (emitted ++ [e]) := by
  refine ⟨?_, fun e' he' => ?_⟩
  · have hbefore := h.count
    have hfreed : freedCount [e] = e.freed := rfl
    rw [freedCount_append, spawnCount_append]
    omega
  · rcases List.mem_append.mp he' with he' | he'
    · exact h.pos e' he'
    · rwa [List.mem_singleton.mp he']

/-- The arena is right, and what was emitted since accounts for the animators. -/
structure Audited (live : Nat) (before : List Event) (r : Run) : Prop where
  stored : r.arena.Stored
  balances : ∃ emitted, r.events.toList = before ++ emitted ∧ r.Balances live emitted

theorem Audited.snoc {before : List Event} (h : r.Audited live before) (hs : r'.arena.Stored)
    {e : Event} (hevents : r'.events = r.events.push e)
    (hcount : r'.arena.size + e.freed = r.arena.size + spawnCount [e])
    (hpos : e.isRetire → 1 ≤ e.freed) : r'.Audited live before := by
  obtain ⟨emitted, he, hb⟩ := h.balances
  refine ⟨hs, emitted ++ [e], ?_, hb.snoc hcount hpos⟩
  rw [hevents, Array.toList_push, he, List.append_assoc]

theorem keeps_audited (s : Setting) (live : Nat) (before : List Event) :
    s.Keeps (Audited live before) where
  emit {r e} hr he := by
    have hplain : e.freed = 0 ∧ e.isSpawn = false ∧ e.isRetire = false := by
      cases e with
      | spawn | retire => cases he
      | _ => exact ⟨rfl, rfl, rfl⟩
    obtain ⟨hfreed, hspawn, hretire⟩ := hplain
    refine hr.snoc hr.stored rfl ?_ fun hr => ?_
    · simp [hfreed, spawnCount, hspawn]
    · rw [hretire] at hr
      cases hr
  retire {r} hr reason h := by
    have hcount := Arena.live_retire r.arena h
    rw [retire_eq]
    split
    · exact hr
    · refine hr.snoc (hr.stored.retire h) rfl ?_ fun _ => Nat.pos_of_ne_zero ‹_›
      exact hcount
  start {r char t} hr _ owner object := by
    have hcount := hr.stored.live_spawn t owner (r.spawnDepth owner)
    refine hr.snoc ((hr.stored.alloc _ _ _).modify owner _) rfl ?_ fun h => by cases h
    exact hcount
  modify {r} hr h f _ := by
    obtain ⟨emitted, he, hb⟩ := hr.balances
    refine ⟨hr.stored.modify h f, emitted, he, ?_, hb.pos⟩
    rw [Arena.live_modify]
    exact hb.count

theorem audited_of_stored (hs : r.arena.Stored) : r.Audited r.arena.size r.events.toList :=
  ⟨hs, [], (List.append_nil _).symm, rfl, fun e he => by cases he⟩

end Run

namespace Session

/-- In every session the animators that were started are live or were retired, and each play reports all
that it starts and ends. -/
theorem events_balance :
    (∀ {r : Run} {cast : List (Handle × Timeline)} {h : Handle} {x : Animation} (s : Setting)
      (target : Node), r.arena.Reached cast → r.arena.get? h = some x →
      ∃ emitted, (SceneReel.play s h target r).2.events.toList = r.events.toList ++ emitted ∧
        (SceneReel.play s h target r).2.arena.size + freedCount emitted =
          r.arena.size + spawnCount emitted ∧
        ∀ e ∈ emitted, e.isRetire → 1 ≤ e.freed) ∧
    ∀ {admits : Session → Node → Prop} {t : Timeline} {options : Options} {σ : Session},
      Reached admits t options σ →
      σ.animator.arena.size + freedCount σ.events = 1 + spawnCount σ.events := by
  have hplay : ∀ {r : Run} (s : Setting) (h : Handle) (target : Node), r.arena.Stored →
      (SceneReel.play s h target r).2.Audited r.arena.size r.events.toList :=
    fun s h target hs =>
      playChain_keeps (Run.keeps_audited s _ _) _ h target (Run.audited_of_stored hs)
  refine ⟨fun {r cast h x} s target hr _ => ?_, fun {admits t options σ} hσ => ?_⟩
  · obtain ⟨emitted, hevents, hcount, hpos⟩ := (hplay s h target hr.stored).balances
    exact ⟨emitted, hevents, hcount, hpos⟩
  · induction hσ with
    | start => exact Arena.Stored.empty.live_alloc t none 0
    | @play σ resolve target hσ _ ih =>
      obtain ⟨emitted, hevents, hb⟩ :=
        (hplay (r := σ.run) (σ.setting resolve) σ.animator.root target
          hσ.reached_arena.stored).balances
      have hsession : (σ.play resolve target).2.events = σ.events ++ emitted :=
        congrArg (σ.events ++ ·) hevents
      have hcount : (σ.play resolve target).2.animator.arena.size + freedCount emitted =
          σ.animator.arena.size + spawnCount emitted := hb.count
      rw [hsession, freedCount_append, spawnCount_append]
      omega

def flashing : Timeline :=
  ⟨[⟨[.known (.place ⟨1⟩ ⟨5⟩ none .identity)]⟩, ⟨[.known (.remove ⟨5⟩)]⟩]⟩

/-- The clip has another one in it, so that two animators start; the next play may be on any target. -/
theorem flashing_balance : ∃ σ : Session, Reached (fun _ _ => True) flashing {} σ ∧
    (∃ x, σ.animator.arena.get? σ.animator.root = some x) ∧
    (spawnCount σ.events = 2 ∧
      σ.animator.arena.size + freedCount σ.events = 1 + spawnCount σ.events) ∧
    ∀ target, ∃ emitted,
      (σ.played clipInClip target).2.events.toList = σ.run.events.toList ++ emitted ∧
        (σ.played clipInClip target).2.arena.size + freedCount emitted =
          σ.run.arena.size + spawnCount emitted ∧
        ∀ e ∈ emitted, e.isRetire → 1 ≤ e.freed := by
  have hspawned : spawnCount ((start flashing {}).play clipInClip (.container ⟨0⟩)).2.events = 2 := by
    decide +kernel
  have hlive : ((start flashing {}).play clipInClip (.container ⟨0⟩)).2.animator.arena.isLive
      ((start flashing {}).play clipInClip (.container ⟨0⟩)).2.animator.root = true := by
    decide +kernel
  have hσ : Reached (fun _ _ => True) flashing {}
      ((start flashing {}).play clipInClip (.container ⟨0⟩)).2 := .play _ _ .start trivial
  generalize ((start flashing {}).play clipInClip (.container ⟨0⟩)).2 = σ at hspawned hlive hσ
  obtain ⟨x, hx⟩ := Arena.isLive_iff.mp hlive
  refine ⟨σ, hσ, ⟨x, hx⟩, ⟨hspawned, events_balance.2 hσ⟩, fun target => ?_⟩
  exact events_balance.1 (σ.setting clipInClip) target hσ.reached_arena hx

end Session

end SceneReel
