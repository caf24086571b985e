import Mathlib.Data.Set.Insert
import SceneReel.Proofs.Arena.Retire

/-!
Arenas without orphans: every animator that has a parent is listed by it. Sets of live animators that
contain the parents of their members are left alone by whatever happens to animators outside.
-/
namespace SceneReel.Arena

variable {a a' a'' : Arena} {g h k owner : Handle} {x y : Animation} {V W : Set Handle}

/-- Every animator that has a parent is listed by it. -/
def Listed (a : Arena) : Prop :=
  ∀ ⦃g y p⦄, a.get? g = some y → y.parent = some p → Lists a.slots p g

/-- Every animator that has a parent is listed by it, and one without frames has no children. -/
structure Family (a : Arena) : Prop where
  wellFormed : a.WellFormed
  listed : ∀ {g y p}, a.get? g = some y → y.parent = some p → Lists a.slots p g
  childless : ∀ {g y}, a.get? g = some y → y.timeline.frameCount = 0 → y.children = []

/-- Live animators, the parents among them. -/
def Upward (a : Arena) (V : Set Handle) : Prop :=
  ∀ u ∈ V, ∃ x, a.get? u = some x ∧ ∀ p, x.parent = some p → p ∈ V

/-- Some animators stay live under their parents, and none of them gets a further child. -/
def Retains (V : Set Handle) (a a' : Arena) : Prop :=
  ∀ u ∈ V, ∀ x, a.get? u = some x →
    ∃ y, a'.get? u = some y ∧ y.parent = x.parent ∧ y.children ⊆ x.children

namespace Retains

theorem refl (V : Set Handle) (a : Arena) : Retains V a a :=
  fun _ _ x hx => ⟨x, hx, rfl, List.Subset.refl _⟩

theorem trans (h : Retains V a a') (h' : Retains V a' a'') : Retains V a a'' := by
  intro u hu x hx
  obtain ⟨y, hy, hyx, hsub⟩ := h u hu x hx
  obtain ⟨z, hz, hzy, hsub'⟩ := h' u hu y hy
  exact ⟨z, hz, hzy.trans hyx, fun _ hk => hsub (hsub' hk)⟩

theorem mono (h : Retains W a a') (hV : V ⊆ W) : Retains V a a' :=
  fun u hu => h u (hV hu)

theorem modify (V : Set Handle) (a : Arena) (h : Handle) {f : Animation → Animation}
    (hf : ∀ x, (f x).children = x.children ∧ (f x).parent = x.parent) :
    Retains V a (a.modify h f) := by
  intro u _ x hx
  rw [get?_modify]
  split
  · subst u
    exact ⟨f x, by rw [hx]; rfl, (hf x).2, (hf x).1 ▸ List.Subset.refl _⟩
  · exact ⟨x, hx, rfl, List.Subset.refl _⟩

end Retains

namespace Upward

theorem empty (a : Arena) : Upward a ∅ :=
  fun _ hu => absurd hu (Set.notMem_empty _)

theorem retains (hV : Upward a V) (h : Retains V a a') : Upward a' V := by
  intro u hu
  obtain ⟨x, hx, hparent⟩ := hV u hu
  obtain ⟨y, hy, hyx, -⟩ := h u hu x hx
  exact ⟨y, hy, fun p hp => hparent p (hyx.symm.trans hp)⟩

theorem of_descends (hV : Upward a V) (hf : Forest a.slots) (hd : Descends a.slots g k)
    (hk : k ∈ V) : g ∈ V := by
  induction hd with
  | refl => exact hk
  | tail _ hl ih =>
    obtain ⟨x, hx, hc⟩ := hl
    obtain ⟨y, hy, hyx, -⟩ := hf.back hx hc
    obtain ⟨z, hz, hparent⟩ := hV _ hk
    rw [show a.get? _ = some y from hy] at hz
    cases hz
    exact ih (hparent _ hyx)

theorem insert (hV : Upward a V) (hx : a.get? h = some x) (hparent : ∀ p, x.parent = some p → p ∈ V) :
    Upward a (insert h V) := by
  intro u hu
  rcases Set.mem_insert_iff.mp hu with rfl | hu
  · exact ⟨x, hx, fun p hp => .inr (hparent p hp)⟩
  · obtain ⟨y, hy, hyV⟩ := hV u hu
    exact ⟨y, hy, fun p hp => .inr (hyV p hp)⟩

/-- An animator whose parent is a member comes in with its descendants. -/
theorem union_below (hV : Upward a V) (hf : Forest a.slots) (hx : a.get? g = some x)
    (hparent : ∀ p, x.parent = some p → p ∈ V) : Upward a (V ∪ {k | Descends a.slots g k}) := by
  intro u hu
  rcases hu with hu | hu
  · obtain ⟨y, hy, hyV⟩ := hV u hu
    exact ⟨y, hy, fun p hp => .inl (hyV p hp)⟩
  · rcases hu.cases_tail with rfl | ⟨b, hd, z, hz, hc⟩
    · exact ⟨x, hx, fun p hp => .inl (hparent p hp)⟩
    · obtain ⟨y, hy, hyb, -⟩ := hf.back hz hc
      refine ⟨y, hy, fun p hp => .inr ?_⟩
      rw [hyb] at hp
      exact Option.some.inj hp ▸ hd

end Upward

/-- Without orphans, the live animators contain the parents of all of them. -/
theorem Family.upward (hf : Family a) : Upward a {k | ∃ x, a.get? k = some x} := by
  rintro u ⟨x, hx⟩
  refine ⟨x, hx, fun p hp => ?_⟩
  obtain ⟨y, hy, -⟩ := hf.listed hx hp
  exact ⟨y, hy⟩

theorem Family.modify (hf : Family a) (h : Handle) {f : Animation → Animation}
    (hk : ∀ x, ∃ k, f x = { x with cursor := k }) : Family (a.modify h f) := by
  have hsame : ∀ x, (f x).children = x.children ∧ (f x).parent = x.parent ∧
      (f x).depth = x.depth ∧ (f x).timeline = x.timeline := by
    intro x
    obtain ⟨k, he⟩ := hk x
    rw [he]
    exact ⟨rfl, rfl, rfl, rfl⟩
  have hfrom : ∀ {g y}, (a.modify h f).get? g = some y → ∃ x, a.get? g = some x ∧
      y.children = x.children ∧ y.parent = x.parent ∧ y.timeline = x.timeline := by
    intro g y hy
    rw [get?_modify] at hy
    split at hy
    · obtain ⟨x, hx, rfl⟩ := Option.map_eq_some_iff.mp hy
      exact ⟨x, ‹g = h› ▸ hx, (hsame x).1, (hsame x).2.1, (hsame x).2.2.2⟩
    · exact ⟨y, hy, rfl, rfl, rfl⟩
  refine ⟨hf.wellFormed.modify h fun x => ⟨(hsame x).1, (hsame x).2.1, (hsame x).2.2.1⟩,
    fun {g y p} hy hp => ?_, fun {g y} hy hcount => ?_⟩
  · obtain ⟨x, hx, -, hparent, -⟩ := hfrom hy
    obtain ⟨z, hz, hc⟩ := hf.listed hx (hparent.symm.trans hp)
    have hlook : lookup (a.modify h f).slots p = _ := get?_modify a h f p
    by_cases hph : p = h
    · subst hph
      rw [if_pos rfl, show a.get? p = some z from hz] at hlook
      exact ⟨f z, hlook, (hsame z).1 ▸ hc⟩
    · rw [if_neg hph] at hlook
      exact ⟨z, hlook.trans hz, hc⟩
  · obtain ⟨x, hx, hchildren, -, htimeline⟩ := hfrom hy
    rw [htimeline] at hcount
    rw [hchildren]
    exact hf.childless hx hcount

theorem Listed.retire (hl : a.Listed) (hw : a.WellFormed) (h : Handle) : (a.retire h).2.Listed := by
  intro g y p hy hp
  obtain ⟨x, hx, -, he⟩ := get?_of_get?_retire hy
  obtain ⟨z, hz, hc⟩ := hl hx (by rw [he] at hp; exact hp)
  cases hlive : a.get? h with
  | none =>
    rw [retire_of_dead hlive]
    exact ⟨z, hz, hc⟩
  | some w =>
    have hgone : ¬ Descends a.slots h g := fun hd => by
      rw [(get?_retire hw.forest.kinship hlive g).1 hd] at hy
      cases hy
    have hleft : ¬ Descends a.slots h p := fun hd => hgone (hd.tail ⟨z, hz, hc⟩)
    have hlook : lookup (a.retire h).2.slots p = _ := (get?_retire hw.forest.kinship hlive p).2 hleft
    rw [show a.get? p = some z from hz] at hlook
    have hgh : g ≠ h := fun he => hgone (he ▸ .refl)
    split at hlook
    · exact ⟨_, hlook, List.mem_filter.mpr ⟨hc, by simpa using hgh⟩⟩
    · exact ⟨z, hlook, hc⟩

theorem Family.retire (hf : Family a) (h : Handle) : Family (a.retire h).2 := by
  have hlisted : (a.retire h).2.Listed :=
    Listed.retire (fun _ _ _ => hf.listed) hf.wellFormed h
  refine ⟨hf.wellFormed.retire h, fun hy hp => hlisted hy hp, fun {g y} hy hcount => ?_⟩
  obtain ⟨x, hx, hsub, he⟩ := get?_of_get?_retire hy
  have hempty := hf.childless hx (by rw [he] at hcount; exact hcount)
  rw [hempty] at hsub
  exact List.sublist_nil.mp hsub

theorem Upward.retains_retire (hV : Upward a V) (hf : Forest a.slots) (hh : h ∉ V) :
    Retains V a (a.retire h).2 := by
  intro u hu x hx
  cases hlive : a.get? h with
  | none =>
    rw [retire_of_dead hlive]
    exact ⟨x, hx, rfl, List.Subset.refl _⟩
  | some w =>
    have hout : ¬ Descends a.slots h u := fun hd => hh (hV.of_descends hf hd hu)
    rw [(get?_retire hf.kinship hlive u).2 hout, hx]
    split
    · exact ⟨_, rfl, rfl, List.filter_sublist.subset⟩
    · exact ⟨x, rfl, rfl, List.Subset.refl _⟩

section Spawning

variable {t : Timeline}

theorem Listed.spawn (hl : a.Listed) (hw : a.WellFormed) (ho : a.get? owner = some x) {d : Nat}
    (hfit : (a.spawn t owner d).2.Fits) : (a.spawn t owner d).2.Listed := by
  intro g y p hy hp
  obtain ⟨-, hget⟩ := hw.get?_spawn ho hfit
  have hlive := fun {k z} (hz : a.get? k = some z) => hw.stored.get?_spawn_of_live hfit hz
  generalize (a.spawn t owner d).1 = child at hget hlive
  have hold : ∀ {z}, a.get? p = some z → g ∈ z.children →
      Lists (a.spawn t owner d).2.slots p g := fun hz hc =>
    ⟨_, (hlive hz).2, List.mem_append_left _ hc⟩
  rw [hget] at hy
  split at hy
  · cases hy
    cases hp
    exact ⟨_, (hlive ho).2, by simp [*]⟩
  · split at hy
    · cases hy
      obtain ⟨z, hz, hc⟩ := hl ho hp
      exact hold hz (‹g = owner› ▸ hc)
    · obtain ⟨z, hz, hc⟩ := hl hy hp
      exact hold hz hc

theorem Family.spawn (hf : Family a) (ho : a.get? owner = some x) (hcount : x.timeline.frameCount ≠ 0)
    (hfit : (a.spawn t owner (x.depth + 1)).2.Fits) :
    Family (a.spawn t owner (x.depth + 1)).2 := by
  have hlisted : (a.spawn t owner (x.depth + 1)).2.Listed :=
    Listed.spawn (fun _ _ _ => hf.listed) hf.wellFormed ho hfit
  refine ⟨hf.wellFormed.spawn ho hfit, fun hy hp => hlisted hy hp, fun {g y} hy hzero => ?_⟩
  obtain ⟨-, hget⟩ := hf.wellFormed.get?_spawn ho hfit
  rw [hget] at hy
  split at hy
  · cases hy
    rfl
  · split at hy
    · cases hy
      exact absurd hzero hcount
    · exact hf.childless hy hzero

theorem WellFormed.retains_spawn (hw : a.WellFormed) {d : Nat}
    (hfit : (a.spawn t owner d).2.Fits) (hV : owner ∉ V) : Retains V a (a.spawn t owner d).2 := by
  intro u hu y hy
  obtain ⟨-, hy'⟩ := hw.stored.get?_spawn_of_live hfit hy
  have howner : u ≠ owner := fun he => hV (he ▸ hu)
  rw [if_neg howner, List.append_nil] at hy'
  exact ⟨y, hy', rfl, List.Subset.refl _⟩

theorem Family.upward_spawn (hf : Family a) {d : Nat}
    (hfit : (a.spawn t owner d).2.Fits) :
    Upward (a.spawn t owner d).2 {k | ∃ x, a.get? k = some x} := by
  rintro u ⟨y, hy⟩
  obtain ⟨z, hz, hparent⟩ := hf.upward u ⟨y, hy⟩
  exact ⟨_, (hf.wellFormed.stored.get?_spawn_of_live hfit hz).2, hparent⟩

end Spawning

end SceneReel.Arena
