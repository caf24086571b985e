import SceneReel.Proofs.Animator.Session
import SceneReel.Proofs.Playback.TendsPlay

/-!
No animator leaks, whatever targets the host passes: where detached animators retire, every live animator
has after each play a node of the target that was played on, right under the node of its parent.
-/
namespace SceneReel.Session

open Node (At)

variable {σ : Session} {target : Node} {t : Timeline} {options : Options}
  {resolve : CharId → Option Resolved}

/-- A target whose nodes carry handles that were given out, perhaps stale by now, no two nodes the same
and none the root. -/
def Admits (σ : Session) (target : Node) : Prop :=
  target.carried.Nodup ∧ ∀ g ∈ target.carried, g ∈ σ.cast.map Prod.fst ∧ g ≠ σ.animator.root

instance (σ : Session) (target : Node) : Decidable (σ.Admits target) :=
  inferInstanceAs (Decidable (_ ∧ _))

/-- The root is live, and no other animator is without a parent that lists it. -/
structure Rooted (σ : Session) : Prop where
  family : σ.animator.arena.Family
  root : ∃ x, σ.animator.arena.get? σ.animator.root = some x ∧ x.parent = none
  only : ∀ g x, σ.animator.arena.get? g = some x → x.parent = none → g = σ.animator.root

theorem Reached.options_eq {admits : Session → Node → Prop} (hσ : Reached admits t options σ) :
    σ.animator.options = options := by
  induction hσ with
  | start => rfl
  | play _ _ _ _ ih => exact ih

theorem rooted_start (hspare : (start t options).Sparing) : (start t options).Rooted := by
  have hfit : (Arena.alloc {} t none 0).2.Fits := hspare.1
  have hget : ∀ k, (start t options).animator.arena.get? k = _ :=
    (Arena.Stored.empty.get?_alloc hfit).2
  have hempty : ∀ k, Arena.get? {} k = none := fun k => by simp [Arena.get?, Arena.lookup]
  have honly : ∀ {k x}, (start t options).animator.arena.get? k = some x →
      k = (start t options).animator.root ∧ x = { timeline := t } := by
    intro k x hx
    rw [hget, hempty] at hx
    split at hx
    · cases hx
      exact ⟨‹_›, rfl⟩
    · cases hx
  refine ⟨⟨⟨?_, ?_, ?_⟩, ?_, ?_⟩, ⟨{ timeline := t }, (hget _).trans (if_pos rfl), rfl⟩, ?_⟩
  · exact Arena.Stored.empty.alloc t none 0
  · intro p x hx
    obtain ⟨-, rfl⟩ := honly hx
    exact List.nodup_nil
  · intro p x c hx hc
    obtain ⟨-, rfl⟩ := honly hx
    cases hc
  · intro g y p hy hp
    obtain ⟨-, rfl⟩ := honly hy
    cases hp
  · intro g y hy _
    obtain ⟨-, rfl⟩ := honly hy
    rfl
  · exact fun g x hx _ => (honly hx).1

theorem Rooted.apart {admits : Session → Node → Prop} (hr : σ.Rooted) (hσ : Reached admits t options σ)
    (hspare : σ.Sparing) (hadmits : σ.Admits target) (s : Setting) :
    ∃ x, σ.run.Apart s σ.cast ∅ σ.animator.root x target := by
  obtain ⟨x, hx, hparent⟩ := hr.root
  have haccounted := hσ.accounted s
  have hhandles : target.handles.Sublist target.carried := by
    rw [Node.carried_eq]
    exact List.sublist_append_right _ _
  refine ⟨x, haccounted, hr.family, hx, .empty _, Set.notMem_empty _, fun p hp => ?_, ⟨?_, ?_⟩,
    fun _ _ => Set.notMem_empty _⟩
  · rw [hparent] at hp
    cases hp
  · refine List.nodup_append.mpr ⟨hadmits.1.sublist hhandles, List.nodup_singleton _, ?_⟩
    intro g hg k hk he
    exact (hadmits.2 g (hhandles.subset hg)).2 (he.trans (List.mem_singleton.mp hk))
  · refine List.append_subset.mpr ⟨fun g hg => ?_, fun g hg => ?_⟩
    · rw [Run.issued, cast_run]
      exact (hadmits.2 g (hhandles.subset hg)).1
    · rw [List.mem_singleton.mp hg]
      exact haccounted.mem_issued (sparing_run.mpr hspare) hx

theorem Rooted.play {admits : Session → Node → Prop} (hr : σ.Rooted) (hσ : Reached admits t options σ)
    (hdetach : options.retireDetached = true) (hadmits : σ.Admits target)
    (hspare : (σ.play resolve target).2.Sparing) :
    (σ.play resolve target).2.Rooted ∧
    Tends (σ.play resolve target).2.animator.arena σ.animator.root
      (σ.play resolve target).1.children ∧
    (σ.play resolve target).1.carried.Nodup := by
  let s := σ.setting resolve
  obtain ⟨x, ha⟩ := hr.apart hσ hspare.before hadmits s
  have hplayer := playChain_tidies s σ.cast (by
    rw [← hσ.options_eq] at hdetach
    exact hdetach) (nestingBound s target)
  have hroom : (σ.played resolve target).2.Sparing s σ.cast := hspare
  have hbound : target.height + (s.options.maxNestingDepth - x.depth) < nestingBound s target := by
    unfold nestingBound
    omega
  obtain ⟨hfamily, -, htends⟩ := hplayer.plays ha hroom hbound
  have hsucceeds := hplayer.carries.obeys.succeeds σ.animator.root target ha.accounted hroom
  have hholds : σ.run.Holds s σ.cast (target.carried ++ []) := by
    rw [List.append_nil]
    refine ⟨hadmits.1, fun g hg => ?_⟩
    rw [Run.issued, cast_run]
    exact (hadmits.2 g hg).1
  have hcarried := hplayer.carries.beside (g := σ.animator.root) (c := target) ha.accounted hroom
    hholds
  rw [List.append_nil, List.append_nil] at hcarried
  obtain ⟨y, hy⟩ := htends.live
  obtain ⟨z, hz, -, hparent, -⟩ := hsucceeds.of_issued hy ha.issued
  rw [ha.live] at hz
  cases hz
  refine ⟨⟨hfamily, ⟨y, hy, ?_⟩, fun g w hw hnone => ?_⟩, htends, hcarried.holds.nodup⟩
  · rw [hparent]
    cases hp : x.parent with
    | none => rfl
    | some p => exact absurd (ha.parent p hp) (Set.notMem_empty p)
  · rcases hsucceeds g w hw with ⟨v, hv, -, hparent, -⟩ | ⟨-, p, hp⟩
    · exact hr.only g v hv (hparent.symm.trans hnone)
    · rw [hnone] at hp
      cases hp

theorem Reached.rooted (hσ : Reached Admits t options σ) (hdetach : options.retireDetached = true)
    (hspare : σ.Sparing) : σ.Rooted := by
  induction hσ with
  | start => exact rooted_start hspare
  | play resolve target hσ hadmits ih => exact ((ih hspare.before).play hσ hdetach hadmits hspare).1

/-- Every live animator descends from the root. -/
theorem Rooted.descends (hr : σ.Rooted) {g : Handle} {x : Animation}
    (hx : σ.animator.arena.get? g = some x) :
    Arena.Descends σ.animator.arena.slots σ.animator.root g := by
  induction hd : x.depth using Nat.strong_induction_on generalizing g x with
  | _ d ih =>
    cases hp : x.parent with
    | none =>
      rw [hr.only g x hx hp]
      exact .refl
    | some p =>
      obtain ⟨y, hy, hg⟩ := hr.family.listed hx hp
      obtain ⟨z, hz, -, hdepth⟩ := hr.family.wellFormed.forest.back hy hg
      rw [show σ.animator.arena.get? g = some z from hz] at hx
      cases hx
      exact (ih y.depth (by omega) hy rfl).tail ⟨y, hy, hg⟩

/-- Where detached animators retire, none leaks: each live one but the root is carried once, by a child
of its parent's node. -/
theorem animators_hosted (hσ : Reached Admits t options σ) (hdetach : options.retireDetached = true)
    (hadmits : σ.Admits target) (hspare : (σ.play resolve target).2.Sparing) {g : Handle}
    {x : Animation} (hx : (σ.play resolve target).2.animator.arena.get? g = some x)
    (hg : g ≠ σ.animator.root) :
    (σ.play resolve target).1.carried.count g = 1 ∧
    ∃ p d m c, x.parent = some p ∧ At (σ.play resolve target).1 d m ∧
      (if p = σ.animator.root then m = (σ.play resolve target).1 else m.animator? = some p) ∧
      c ∈ m.children ∧ c.animator? = some g := by
  obtain ⟨hr, htends, hnodup⟩ :=
    (hσ.rooted hdetach hspare.before).play hσ hdetach hadmits hspare
  have hroot : (σ.play resolve target).2.animator.root = σ.animator.root := rfl
  generalize σ.play resolve target = out at *
  obtain ⟨shown, σ'⟩ := out
  dsimp only at *
  rw [← hroot] at hg htends ⊢
  refine ⟨?_, ?_⟩
  · have hin := (List.mem_cons.mp (htends.mem_of_descends (hr.descends hx))).resolve_left hg
    exact List.count_eq_one_of_mem hnodup (Node.mem_carried.mpr (.inr hin))
  · obtain ⟨p, hp⟩ : ∃ p, x.parent = some p := by
      cases hp : x.parent with
      | none => exact absurd (hr.only g x hx hp) hg
      | some p => exact ⟨p, rfl⟩
    obtain ⟨y, hy, hlisted⟩ := hr.family.listed hx hp
    by_cases hproot : p = σ'.animator.root
    · rw [hproot] at hy
      obtain ⟨c, hc, hgc, -⟩ := htends.clip hy hlisted
      exact ⟨p, 0, shown, c, hp, .root, by rw [if_pos hproot], hc, hgc⟩
    · obtain ⟨d, m, hm, hcarries, hbelow⟩ := htends.hosts (hr.descends hy)
      obtain ⟨c, hc, hgc, -⟩ := hbelow.clip hy hlisted
      refine ⟨p, d, m, c, hp, hm, ?_, hc, hgc⟩
      rw [if_neg hproot]
      exact hcarries.resolve_left fun hsame => hproot hsame.1

def hosting : Timeline :=
  ⟨[⟨[.known (.place ⟨1⟩ ⟨5⟩ none .identity)]⟩, {}]⟩

/-- A library with a clip that places another one in each of its frames. -/
def clipInClip : CharId → Option Resolved := fun char =>
  if char = ⟨1⟩ then
    some (.timeline ⟨[⟨[.known (.place ⟨2⟩ ⟨7⟩ none .identity)]⟩,
      ⟨[.known (.place ⟨2⟩ ⟨8⟩ none .identity)]⟩]⟩)
  else if char = ⟨2⟩ then some (.timeline ⟨[{}]⟩) else none

/-- The host puts a node before the clip: all animators are hosted still, and one more has started. -/
theorem shifted_clip_hosted : ∃ (σ : Session) (target : Node), Reached Admits hosting {} σ ∧
    target.childIds = [⟨9⟩, ⟨5⟩] ∧ target.carried = [⟨1, 0⟩, ⟨2, 0⟩] ∧
    (σ.play clipInClip target).1.carried = [⟨1, 0⟩, ⟨2, 0⟩, ⟨3, 0⟩] ∧
    ∃ x, (σ.play clipInClip target).2.animator.arena.get? ⟨3, 0⟩ = some x ∧
      (σ.play clipInClip target).1.carried.count ⟨3, 0⟩ = 1 ∧
      ∃ p d m c, x.parent = some p ∧ At (σ.play clipInClip target).1 d m ∧
        (if p = σ.animator.root then m = (σ.play clipInClip target).1
          else m.animator? = some p) ∧
        c ∈ m.children ∧ c.animator? = some ⟨3, 0⟩ := by
  let σ := ((start hosting {}).play clipInClip (.container ⟨0⟩)).2
  let inner : Node := { id := ⟨7⟩, kind := .clip ⟨2⟩ (some ⟨2, 0⟩) }
  let outer : Node := { id := ⟨5⟩, kind := .clip ⟨1⟩ (some ⟨1, 0⟩), children := [inner] }
  let target : Node := { Node.container ⟨0⟩ with children := [.container ⟨9⟩, outer] }
  have hσ : Reached Admits hosting {} σ := .play clipInClip _ .start (by decide +kernel)
  have hfit : (σ.play clipInClip target).2.animator.arena.Fits := by decide +kernel
  have hspare : (σ.play clipInClip target).2.Sparing :=
    sparing_of_length hfit (by decide +kernel)
  obtain ⟨x, hx⟩ : ∃ x, (σ.play clipInClip target).2.animator.arena.get? ⟨3, 0⟩ = some x :=
    Arena.isLive_iff.mp (by decide +kernel)
  exact ⟨σ, target, hσ, by decide +kernel, by decide +kernel, by decide +kernel, x, hx,
    animators_hosted hσ rfl (by decide +kernel) hspare hx (by decide +kernel)⟩

end SceneReel.Session
