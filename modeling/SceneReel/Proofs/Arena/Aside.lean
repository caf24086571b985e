import Mathlib.Data.Set.Basic
import SceneReel.Proofs.Arena.Retire

/-!
Animators set aside from an arena: some that stay as they are, and with them all that they list. What
happens to others leaves them alone, as long as no other animator lists one of them.
-/
namespace SceneReel.Arena

variable {slots : Array Slot} {a b : Arena} {g h k : Handle} {x : Animation} {kept held : Set Handle}

theorem filter_ne_of_not_mem {l : List Handle} (hout : h ∉ l) : l.filter (· ≠ h) = l := by
  refine List.filter_eq_self.mpr fun k hk => decide_eq_true ?_
  rintro rfl
  exact hout hk

/-- From `a` to `b` the `kept` animators stay as they were; what they list is among the `held`, which no
other lists. -/
structure SetsAside (kept held : Set Handle) (a b : Arena) : Prop where
  stored : b.Stored
  subset : kept ⊆ held
  same : ∀ k ∈ kept, b.get? k = a.get? k
  closed : ∀ k ∈ kept, ∀ x, b.get? k = some x → ∀ c ∈ x.children, c ∈ held
  live : ∀ k ∈ held, ∃ x, b.get? k = some x
  apart : ∀ g x, b.get? g = some x → g ∉ kept → ∀ c ∈ x.children, c ∉ held

namespace SetsAside

theorem modify (hb : SetsAside kept held a b) (hh : h ∉ kept) {f : Animation → Animation}
    (hf : ∀ x, ∀ c ∈ (f x).children, c ∈ x.children ∨ c ∉ held) :
    SetsAside kept held a (b.modify h f) := by
  have hlook : ∀ k ∈ kept, (b.modify h f).get? k = b.get? k := by
    intro k hk
    rw [get?_modify, if_neg]
    rintro rfl
    exact hh hk
  refine ⟨hb.stored.modify h f, hb.subset, fun k hk => (hlook k hk).trans (hb.same k hk),
    fun k hk x hx => hb.closed k hk x ((hlook k hk).symm.trans hx), fun k hk => ?_,
    fun g x hx hg c hc => ?_⟩
  · obtain ⟨x, hx⟩ := hb.live k hk
    rw [get?_modify]
    split
    · subst k
      exact ⟨f x, by rw [hx, Option.map_some]⟩
    · exact ⟨x, hx⟩
  · rw [get?_modify] at hx
    split at hx
    · obtain ⟨y, hy, rfl⟩ := Option.map_eq_some_iff.mp hx
      rcases hf y c hc with hc | hc
      · exact hb.apart h y hy hh c hc
      · exact hc
    · exact hb.apart g x hx hg c hc

theorem freeAll {free : List UInt32} (hb : SetsAside kept held a ⟨slots, free⟩) (n : Nat)
    (stack : List Handle) (hstack : ∀ g ∈ stack, g ∉ held) :
    SetsAside kept held a (Arena.freeAll slots free n stack).2 := by
  fun_induction Arena.freeAll slots free n stack with
  | case1 slots free n => exact hb
  | case2 slots free n h stack hx ih =>
    exact ih hb fun g hg => hstack g (List.mem_cons_of_mem h hg)
  | case3 slots free n h stack x hx ih =>
    have hh : h ∉ held := hstack h List.mem_cons_self
    have hlook : ∀ k, lookup (store slots h none) k = if k = h then none else lookup slots k :=
      lookup_store hx none
    have hkept : ∀ k ∈ held, lookup (store slots h none) k = lookup slots k := by
      intro k hk
      rw [hlook, if_neg]
      rintro rfl
      exact hh hk
    have hstay : ∀ {k y}, lookup (store slots h none) k = some y → lookup slots k = some y := by
      intro k y hy
      rw [hlook] at hy
      split at hy
      · cases hy
      · exact hy
    refine ih ⟨hb.stored.free hx, hb.subset, fun k hk => ?_, fun k hk y hy => ?_, fun k hk => ?_,
      fun g y hy => hb.apart g y (hstay hy)⟩ fun g hg => ?_
    · exact (hkept k (hb.subset hk)).trans (hb.same k hk)
    · exact hb.closed k hk y (hstay hy)
    · obtain ⟨y, hy⟩ := hb.live k hk
      exact ⟨y, (hkept k hk).trans hy⟩
    · rcases List.mem_append.mp hg with hg | hg
      · exact hb.apart h x hx (fun hin => hh (hb.subset hin)) g (List.mem_reverse.mp hg)
      · exact hstack g (List.mem_cons_of_mem h hg)

/-- The kept list what is held, so that no other is taken off their lists. -/
theorem unlink (hb : SetsAside kept held a b) (hh : h ∉ held) (parent : Option Handle) :
    SetsAside kept held a (b.unlink h parent) := by
  have hlook : ∀ k, (b.unlink h parent).get? k = _ := get?_unlink b h parent
  have hkept : ∀ k ∈ kept, (b.unlink h parent).get? k = b.get? k := by
    intro k hk
    obtain ⟨x, hx⟩ := hb.live k (hb.subset hk)
    have hout : h ∉ x.children := fun hin => hh (hb.closed k hk x hx h hin)
    rw [hlook]
    split
    · rw [hx, Option.map_some, filter_ne_of_not_mem hout]
    · rfl
  refine ⟨hb.stored.unlink h parent, hb.subset, fun k hk => (hkept k hk).trans (hb.same k hk),
    fun k hk x hx => hb.closed k hk x ((hkept k hk).symm.trans hx), fun k hk => ?_,
    fun g x hx hg c hc => ?_⟩
  · obtain ⟨x, hx⟩ := hb.live k hk
    rw [hlook, hx]
    split
    · exact ⟨_, rfl⟩
    · exact ⟨x, rfl⟩
  · rw [hlook] at hx
    split at hx
    · obtain ⟨y, hy, rfl⟩ := Option.map_eq_some_iff.mp hx
      exact hb.apart g y hy hg c (List.mem_filter.mp hc).1
    · exact hb.apart g x hx hg c hc

theorem retire (hb : SetsAside kept held a b) (hh : h ∉ held) :
    SetsAside kept held a (b.retire h).2 := by
  cases hx : b.get? h with
  | none =>
    rw [retire_of_dead hx]
    exact hb
  | some x =>
    rw [retire_of_live hx]
    refine (hb.unlink hh x.parent).freeAll 0 [h] fun g hg => ?_
    rw [List.mem_singleton.mp hg]
    exact hh

end SetsAside

section Retiring

/-- To retire an animator ends a live one if that is below it, and otherwise takes it off the list. -/
theorem Kinship.get?_retire_of_live (hf : Kinship a.slots) (hx : a.get? k = some x) (h : Handle) :
    (Descends a.slots h k → (a.retire h).2.get? k = none) ∧
    (¬ Descends a.slots h k →
      (a.retire h).2.get? k = some { x with children := x.children.filter (· ≠ h) }) := by
  have hself : h ∉ x.children → some { x with children := x.children.filter (· ≠ h) } = a.get? k := by
    intro hout
    rw [filter_ne_of_not_mem hout, hx]
  cases hh : a.get? h with
  | none =>
    rw [retire_of_dead hh]
    refine ⟨fun hd => ?_, fun _ => (hself fun hin => ?_).symm⟩
    · rcases hd.cases_head with rfl | ⟨c, ⟨y, hy, -⟩, -⟩
      · exact hh
      · rw [show a.get? h = some y from hy] at hh
        cases hh
    · obtain ⟨y, hy, -⟩ := hf.back hx hin
      rw [show a.get? h = some y from hy] at hh
      cases hh
  | some z =>
    obtain ⟨hdead, hleft⟩ := get?_retire hf hh k
    refine ⟨hdead, fun hd => ?_⟩
    rw [hleft hd]
    split
    · rw [hx, Option.map_some]
    · rename_i hparent
      refine (hself fun hin => hparent ?_).symm
      obtain ⟨y, hy, hback⟩ := hf.back hx hin
      rw [show a.get? h = some y from hy] at hh
      cases hh
      exact hback

theorem get?_retire_of_dead (hk : a.get? k = none) (h : Handle) : (a.retire h).2.get? k = none := by
  by_contra hlive
  obtain ⟨y, hy⟩ := Option.ne_none_iff_exists'.mp hlive
  obtain ⟨x, hx, -⟩ := get?_of_get?_retire hy
  rw [hk] at hx
  cases hx

theorem descends_of_retire (hd : Descends (a.retire h).2.slots g k) : Descends a.slots g k := by
  refine Relation.ReflTransGen.mono (fun p c hl => ?_) _ _ hd
  obtain ⟨y, hy, hc⟩ := hl
  obtain ⟨x, hx, hsub, -⟩ := get?_of_get?_retire hy
  exact ⟨x, hx, hsub.subset hc⟩

/-- Who is not below a retired animator is below all others that it was below. -/
theorem Kinship.descends_retire (hf : Kinship a.slots) (hk : ¬ Descends a.slots h k)
    (hd : Descends a.slots g k) : Descends (a.retire h).2.slots g k := by
  induction hd using Relation.ReflTransGen.head_induction_on with
  | refl => exact .refl
  | @head p c hl hd ih =>
    obtain ⟨x, hx, hc⟩ := hl
    have hp : ¬ Descends a.slots h p := fun hin => hk (hin.trans (hd.head ⟨x, hx, hc⟩))
    have hch : c ≠ h := by
      rintro rfl
      exact hk hd
    refine ih.head ⟨_, (hf.get?_retire_of_live hx h).2 hp, ?_⟩
    exact List.mem_filter.mpr ⟨hc, decide_eq_true hch⟩

end Retiring

section Spawning

variable {t : Timeline} {owner : Handle} {d : Nat}

/-- What another animator spawns is not one of the held. -/
theorem SetsAside.spawn (hb : SetsAside kept held a b) (howner : owner ∉ kept)
    (hfit : (b.spawn t owner d).2.Fits) :
    SetsAside kept held a (b.spawn t owner d).2 ∧ (b.spawn t owner d).1 ∉ held := by
  have hlook := fun {k x} (hx : b.get? k = some x) =>
    hb.stored.get?_spawn_of_live hfit hx
  have hnew : (b.spawn t owner d).1 ∉ held := by
    intro hin
    obtain ⟨x, hx⟩ := hb.live _ hin
    exact (hlook hx).1 rfl
  have hkept : ∀ k ∈ kept, (b.spawn t owner d).2.get? k = b.get? k := by
    intro k hk
    obtain ⟨x, hx⟩ := hb.live k (hb.subset hk)
    have hne : k ≠ owner := by
      rintro rfl
      exact howner hk
    rw [(hlook hx).2, if_neg hne, List.append_nil, hx]
  refine ⟨⟨(hb.stored.alloc t (some owner) d).modify owner _, hb.subset,
    fun k hk => (hkept k hk).trans (hb.same k hk),
    fun k hk x hx => hb.closed k hk x ((hkept k hk).symm.trans hx), fun k hk => ?_,
    fun g y hy hg c hc => ?_⟩, hnew⟩
  · obtain ⟨x, hx⟩ := hb.live k hk
    exact ⟨_, (hlook hx).2⟩
  · obtain ⟨l, hl, hchildren⟩ := hb.stored.children_of_get?_spawn hfit hy
    rw [hchildren] at hc
    rcases List.mem_append.mp hc with hc | hc
    · rcases hl with rfl | ⟨x, hx, rfl⟩
      · cases hc
      · exact hb.apart g x hx hg c hc
    · split at hc
      · rw [List.mem_singleton.mp hc]
        exact hnew
      · cases hc

/-- Once an animator is spawned in a well-formed arena, all that were live can be set aside. -/
theorem WellFormed.setsAside_spawn (hw : a.WellFormed) (hfit : (a.spawn t owner d).2.Fits) :
    (a.spawn t owner d).1 ∉ {k | ∃ x, a.get? k = some x} ∧
    ∃ held, SetsAside {k | ∃ x, a.get? k = some x} held (a.spawn t owner d).2
      (a.spawn t owner d).2 := by
  have hlook := fun {k x} (hx : a.get? k = some x) =>
    hw.stored.get?_spawn_of_live hfit hx
  have hchild : (a.spawn t owner d).1 ∉ {k | ∃ x, a.get? k = some x} :=
    fun ⟨x, hx⟩ => (hlook hx).1 rfl
  refine ⟨hchild, {k | (∃ x, a.get? k = some x) ∨ k = (a.spawn t owner d).1 ∧ ∃ x, a.get? owner = some x},
    (hw.stored.alloc t (some owner) d).modify owner _, fun k hk => .inl hk, fun k _ => rfl,
    fun k hk y hy c hc => ?_, fun k hk => ?_, fun g y hy hg c hc => ?_⟩
  · obtain ⟨x, hx⟩ := hk
    rw [(hlook hx).2] at hy
    cases hy
    rcases List.mem_append.mp hc with hc | hc
    · obtain ⟨z, hz, -⟩ := hw.forest.back hx hc
      exact .inl ⟨z, hz⟩
    · split at hc
      · exact .inr ⟨List.mem_singleton.mp hc, x, ‹k = owner› ▸ hx⟩
      · cases hc
  · rcases hk with ⟨x, hx⟩ | ⟨rfl, x, hx⟩
    · exact ⟨_, (hlook hx).2⟩
    · exact ⟨_, ((hw.get?_spawn hx hfit).2 _).trans (if_pos rfl)⟩
  · rcases hw.stored.get?_of_get?_spawn hfit hy with ⟨rfl, -⟩ | ⟨x, hx, -⟩
    · -- the new animator lists nothing, unless its owner was a stale handle that is now its own
      obtain ⟨l, hl, hchildren⟩ := hw.stored.children_of_get?_spawn hfit hy
      have hnil : l = [] := hl.resolve_right fun ⟨x, hx, _⟩ => hchild ⟨x, hx⟩
      rw [hchildren, hnil, List.nil_append] at hc
      split at hc
      · rename_i hself
        rw [List.mem_singleton.mp hc]
        rintro (hin | ⟨-, x, hx⟩)
        · exact hchild hin
        · exact hchild ⟨x, (congrArg a.get? hself).trans hx⟩
      · cases hc
    · exact absurd ⟨x, hx⟩ hg

end Spawning

end SceneReel.Arena
