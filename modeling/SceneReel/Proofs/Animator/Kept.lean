import SceneReel.Proofs.Animator.Session
import SceneReel.Proofs.Playback.Checked
import SceneReel.Proofs.Playback.Spares

/-!
A host that never shows an animator its own handle cannot make it lose its root, whatever trees it passes
otherwise, and no play uses an index that is out of bounds.
-/
namespace SceneReel

section Own

variable {s : Setting} {p : Player} {h : Handle} {x : Animation} {n : Node} {r : Run}

theorem playFrame_own (hp : ∀ x, p.Spares h x) (hk : p.KeepsHead) (t : Timeline)
    (hn : h ∉ n.handles) (hr : r.arena.Roots h x) :
    ∃ k, (playFrame s p h t n r).2.arena.Roots h { x with cursor := k } := by
  obtain ⟨l, hl⟩ := hr.live
  cases hframe : t.frames[if x.cursor = t.frameCount then 0 else x.cursor]? with
  | none =>
    rw [playFrame_of_none s p hl hframe]
    exact ⟨_, hr.seek fun l => rfl⟩
  | some frame => exact ⟨_, (playFrame_root hp hk t hn hr hframe).1⟩

theorem playStep_own (hp : ∀ x, p.Spares h x) (hk : p.KeepsHead) (hn : h ∉ n.handles)
    (hr : r.arena.Roots h x) :
    ∃ k, (playStep s p h n r).2.arena.Roots h { x with cursor := k } := by
  obtain ⟨l, hl⟩ := hr.live
  by_cases hcount : x.timeline.frameCount = 0
  · rw [playStep_of_empty s p hl hcount]
    exact ⟨x.cursor, hr⟩
  · rw [playStep_eq s p hl hcount]
    obtain ⟨hroots, hclear⟩ := playChildren_spares (s := s) (hp x) hk l (hr.unlisted hl) hn hr
    exact playFrame_own hp hk x.timeline hclear hroots

end Own

namespace Session

variable {t : Timeline} {options : Options} {σ : Session}

/-- The host passes no tree in which a node carries the handle of the root. -/
def Unclaimed (σ : Session) (target : Node) : Prop :=
  σ.animator.root ∉ target.handles

instance (σ : Session) (target : Node) : Decidable (σ.Unclaimed target) :=
  inferInstanceAs (Decidable (σ.animator.root ∉ target.handles))

theorem Reached.roots (hσ : Reached Unclaimed t options σ) :
    ∃ k, σ.animator.arena.Roots σ.animator.root { timeline := t, cursor := k } := by
  induction hσ with
  | start => exact ⟨0, .first_alloc t⟩
  | @play σ resolve target _ hadmits ih =>
    obtain ⟨k, hroots⟩ := ih
    have hspares := playChain_spares (σ.setting resolve) σ.animator.root
    exact playStep_own (r := σ.run)
      (fun x => (hspares x (target.height + σ.animator.options.maxNestingDepth)).1)
      (hspares { timeline := t } _).2 hadmits hroots

/-- Where no target carries the handle of the root, the root stays live, and no play misses a slot or a
position. -/
theorem root_kept (hσ : Reached Unclaimed t options σ) :
    (∃ x, σ.animator.arena.get? σ.animator.root = some x ∧ x.parent = none ∧ x.depth = 0 ∧
      x.timeline = t) ∧
    ∀ (resolve : CharId → Option Resolved) (target : Node) (n : Nat),
      playChain? (σ.setting resolve) (fun _ target run => .ok (target, run)) n
          σ.animator.root target σ.run =
        .ok (playChain (σ.setting resolve) idle n σ.animator.root target σ.run) := by
  refine ⟨?_, fun resolve target n => ?_⟩
  · obtain ⟨k, hroots⟩ := hσ.roots
    obtain ⟨l, hl⟩ := hroots.live
    exact ⟨_, hl, rfl, rfl, rfl⟩
  · exact playChain?_matches (σ.setting resolve) n σ.animator.root target σ.run
      (hσ.accounted (σ.setting resolve)).stored

def shuffling : Timeline :=
  ⟨[⟨[.known (.place ⟨1⟩ ⟨5⟩ none .identity)]⟩, ⟨[.known (.reorder ⟨5⟩ (some ⟨9⟩))]⟩,
    ⟨[.known (.remove ⟨5⟩)]⟩]⟩

/-- Siblings of one id: clips of a handle that was never given out, of a handle that will be, and twice. -/
def crowded : Node :=
  let clip : Handle → Node := fun h => { id := ⟨9⟩, kind := .clip ⟨1⟩ (some h) }
  { Node.container ⟨0⟩ with
    children := [clip ⟨7, 3⟩, { clip ⟨1, 0⟩ with children := [clip ⟨1, 0⟩] }, clip ⟨1, 1⟩] }

/-- The root is kept on such a tree. In the second play the clip removes a child that carries its own
handle. -/
theorem crowded_root_kept : ∃ σ : Session, Reached Unclaimed shuffling {} σ ∧
    (σ.Unclaimed crowded ∧ crowded.handles.length = 4) ∧
    (∃ x, σ.animator.arena.get? σ.animator.root = some x ∧ x.parent = none ∧ x.depth = 0 ∧
      x.timeline = shuffling) ∧
    ∀ (resolve : CharId → Option Resolved) (target : Node) (n : Nat),
      playChain? (σ.setting resolve) (fun _ target run => .ok (target, run)) n
          σ.animator.root target σ.run =
        .ok (playChain (σ.setting resolve) idle n σ.animator.root target σ.run) := by
  have hstart : Unclaimed (start shuffling {}) crowded := by decide
  have hfirst := Reached.play (fun _ => some (.timeline ⟨[{}]⟩)) crowded .start hstart
  have hsecond := Reached.play (fun _ => none) crowded hfirst (by decide +kernel)
  exact ⟨_, hsecond, by decide +kernel, root_kept hsecond⟩

end Session

end SceneReel
