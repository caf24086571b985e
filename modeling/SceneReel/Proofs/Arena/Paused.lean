import SceneReel.Proofs.Arena.Aside

/-!
An animator that does not play, with all below it. What others do leaves them as they are, unless it
retires an animator above, which ends them all.
-/
namespace SceneReel.Arena

variable {a b : Arena} {c g h k owner : Handle} {x : Animation} {t : Timeline} {d : Nat}

/-- From `a` to `b` an animator and all below it stay as they were, and it is below no other. -/
structure Paused (c : Handle) (a b : Arena) : Prop where
  same : ∀ k, Descends a.slots c k → b.get? k = a.get? k
  above : ∀ g, Descends b.slots g c → Descends a.slots g c

namespace Paused

theorem refl (c : Handle) (a : Arena) : Paused c a a :=
  ⟨fun _ _ => rfl, fun _ hd => hd⟩

/-- Whoever is above one of them, and is none of them, is above the topmost. -/
theorem descends_top (hb : Paused c a b) (hf : Kinship b.slots) (hk : Descends a.slots c k)
    (hd : Descends b.slots h k) (hh : ¬ Descends a.slots c h) : Descends b.slots h c := by
  induction hk with
  | refl => exact hd
  | @tail p k hp hl ih =>
    obtain ⟨x, hx, hin⟩ := hl
    rcases hd.cases_tail with rfl | ⟨q, hdq, hq⟩
    · exact absurd (hp.tail ⟨x, hx, hin⟩) hh
    · rw [hf.parent_unique hq ⟨x, (hb.same p hp).trans hx, hin⟩] at hdq
      exact ih hdq

/-- To retire another leaves them, unless that is above. -/
theorem retire (hb : Paused c a b) (hf : Kinship b.slots)
    (hlive : ∀ k, Descends a.slots c k → ∃ x, a.get? k = some x) (hh : ¬ Descends a.slots c h) :
    (Descends a.slots h c ∧ ∃ x, b.get? h = some x) ∨ Paused c a (b.retire h).2 := by
  have hlook : ∀ k, Descends a.slots c k → ∃ x, a.get? k = some x ∧ b.get? k = some x := by
    intro k hk
    obtain ⟨x, hx⟩ := hlive k hk
    exact ⟨x, hx, (hb.same k hk).trans hx⟩
  -- whoever is above any of them is above the topmost, so that this decides for all
  by_cases htop : Descends b.slots h c
  · refine .inl ⟨hb.above h htop, ?_⟩
    rcases htop.cases_head with rfl | ⟨p, ⟨y, hy, -⟩, -⟩
    · exact absurd .refl hh
    · exact ⟨y, hy⟩
  · refine .inr ⟨fun k hk => ?_, fun g hd => hb.above g (descends_of_retire hd)⟩
    obtain ⟨x, hxa, hxb⟩ := hlook k hk
    have hout : ¬ Descends b.slots h k := fun hd => htop (hb.descends_top hf hk hd hh)
    have hunlisted : h ∉ x.children := fun hin => hh (hk.tail ⟨x, hxa, hin⟩)
    rw [(hf.get?_retire_of_live hxb h).2 hout, filter_ne_of_not_mem hunlisted, hxa]

theorem spawn (hb : Paused c a b) (hs : b.Stored)
    (hlive : ∀ k, Descends a.slots c k → ∃ x, a.get? k = some x) (howner : ¬ Descends a.slots c owner)
    (hfit : (b.spawn t owner d).2.Fits) : Paused c a (b.spawn t owner d).2 := by
  obtain ⟨hfresh, -⟩ := hs.get?_alloc hfit.of_spawn
  have hnew : ¬ Descends b.slots (b.spawn t owner d).1 c := by
    intro hd
    rcases hd.cases_head with he | ⟨p, ⟨y, hy, -⟩, -⟩
    · obtain ⟨x, hx⟩ := hlive c .refl
      rw [← hb.same c .refl, ← he] at hx
      cases hfresh.symm.trans hx
    · cases hfresh.symm.trans hy
  refine ⟨fun k hk => ?_, fun g hd => hb.above g ?_⟩
  · obtain ⟨x, hx⟩ := hlive k hk
    have hne : k ≠ owner := by
      rintro rfl
      exact howner hk
    rw [(hs.get?_spawn_of_live hfit ((hb.same k hk).trans hx)).2, if_neg hne, List.append_nil, hx]
  · induction hd using Relation.ReflTransGen.head_induction_on with
    | refl => exact .refl
    | @head p q hl hd ih =>
      obtain ⟨y, hy, hq⟩ := hl
      obtain ⟨l, hl, hchildren⟩ := hs.children_of_get?_spawn hfit hy
      rw [hchildren] at hq
      rcases List.mem_append.mp hq with hq | hq
      · rcases hl with rfl | ⟨x, hx, rfl⟩
        · cases hq
        · exact ih.head ⟨x, hx, hq⟩
      · split at hq
        · rw [List.mem_singleton.mp hq] at ih
          exact absurd ih hnew
        · cases hq

theorem modify (hb : Paused c a b) (hh : ¬ Descends a.slots c h) {f : Animation → Animation}
    (hf : ∀ x, (f x).children = x.children) : Paused c a (b.modify h f) := by
  refine ⟨fun k hk => ?_, fun g hd => hb.above g ?_⟩
  · rw [get?_modify, if_neg, hb.same k hk]
    rintro rfl
    exact hh hk
  · refine Relation.ReflTransGen.mono (fun p q hl => ?_) _ _ hd
    obtain ⟨y, hy, hq⟩ := hl
    replace hy : (b.modify h f).get? p = some y := hy
    rw [get?_modify] at hy
    split at hy
    · obtain ⟨x, hx, rfl⟩ := Option.map_eq_some_iff.mp hy
      rw [hf] at hq
      exact ⟨x, ‹p = h› ▸ hx, hq⟩
    · exact ⟨y, hy, hq⟩

end Paused

end SceneReel.Arena
