import SceneReel.Proofs.Arena.Retire

/-!
The animator in the first slot. As no other lists it, it stays whatever happens to others, even where the
indices of new slots no longer fit into 32 bits.
-/
namespace SceneReel.Arena

variable {slots : Array Slot} {a : Arena} {g h k : Handle} {x y z : Animation}

theorem lookup_store_of_index_ne (hk : k.index ≠ h.index) (y : Option Animation) :
    lookup (store slots h y) k = lookup slots k := by
  have : h.index.toNat ≠ k.index.toNat := fun he => hk (UInt32.toNat_inj.mp he).symm
  simp [lookup, store, this]

theorem lookup_of_lookup_store {y : Option Animation} (hz : lookup (store slots h y) k = some z) :
    y = some z ∨ lookup slots k = some z := by
  by_cases hk : k.index = h.index
  · rw [lookup_eq_some_iff] at hz
    simp only [store, Array.getElem?_setIfInBounds, hk, if_true] at hz
    split at hz
    · simp only [Option.some.injEq, Slot.mk.injEq] at hz
      exact .inl hz.2
    · cases hz
  · exact .inr (lookup_store_of_index_ne hk y ▸ hz)

theorem lookup_of_lookup_push {s : Slot} (hz : lookup (slots.push s) k = some z) :
    s.animation? = some z ∨ lookup slots k = some z := by
  rw [lookup_eq_some_iff, Array.getElem?_push] at hz
  split at hz
  · simp only [Option.some.injEq] at hz
    exact .inl (by rw [hz])
  · exact .inr (lookup_eq_some_iff.mpr hz)

theorem lookup_push (hx : lookup slots k = some x) (s : Slot) :
    lookup (slots.push s) k = some x := by
  rw [lookup_eq_some_iff] at hx ⊢
  have hi : k.index.toNat < slots.size := (Array.getElem?_eq_some_iff.mp hx).1
  rw [Array.getElem?_push, if_neg (by omega), hx]

theorem index_ne_of_ne (hx : lookup slots h = some x) (hy : lookup slots g = some y) (hg : g ≠ h) :
    g.index ≠ h.index := by
  intro hi
  rw [lookup_eq_some_iff] at hx hy
  rw [hi, hx] at hy
  have hgen : h.generation = g.generation := congrArg Slot.generation (Option.some.inj hy)
  exact hg (by cases g; cases h; simp_all)

/-- The first slot holds an animator, up to its list of children, that no other lists. -/
structure Roots (a : Arena) (h : Handle) (x : Animation) : Prop where
  first : h.index = 0
  live : ∃ l, a.get? h = some { x with children := l }
  taken : h.index ∉ a.free
  unlisted : ∀ {p y}, a.get? p = some y → h ∉ y.children

namespace Roots

/-- The first animator of an arena is such a one. -/
theorem first_alloc (t : Timeline) :
    (Arena.alloc {} t none 0).2.Roots (Arena.alloc {} t none 0).1 { timeline := t } := by
  refine ⟨rfl, ⟨[], rfl⟩, List.not_mem_nil, fun {p y} hy => ?_⟩
  have hpush : lookup (#[].push ⟨0, some { timeline := t }⟩) p = some y := hy
  rcases lookup_of_lookup_push hpush with hy | hy
  · cases hy
    exact List.not_mem_nil
  · simp [lookup] at hy

theorem alloc (hr : a.Roots h x) (t : Timeline) (p : Option Handle) (d : Nat) :
    (a.alloc t p d).1 ≠ h ∧ (a.alloc t p d).2.Roots h x := by
  obtain ⟨hfirst, ⟨l, hl⟩, htaken, hunlisted⟩ := hr
  have hnil : ∀ {y}, some { timeline := t, parent := p, depth := d : Animation } = some y →
      h ∉ y.children := by
    intro y hy
    cases hy
    exact List.not_mem_nil
  cases hf : a.free with
  | nil =>
    rw [alloc_of_free_nil hf]
    have hpos : 0 < a.slots.size := by
      have hi := (Array.getElem?_eq_some_iff.mp (lookup_eq_some_iff.mp hl)).1
      omega
    refine ⟨fun he => ?_, hfirst, ⟨l, lookup_push hl _⟩, htaken, fun hy => ?_⟩
    · have hi := congrArg (fun k : Handle => k.index.toNat) he
      simp only [hfirst, UInt32.toNat_ofNat', UInt32.toNat_zero] at hi
      have hsize : UInt32.size = 2 ^ 32 := rfl
      omega
    · exact (lookup_of_lookup_push hy).elim hnil hunlisted
  | cons i free =>
    rw [alloc_of_free_cons hf]
    rw [hf, List.mem_cons, not_or] at htaken
    refine ⟨fun he => htaken.1 (congrArg Handle.index he).symm, hfirst, ⟨l, ?_⟩, htaken.2,
      fun hy => ?_⟩
    · exact (lookup_store_of_index_ne htaken.1 _).trans hl
    · exact (lookup_of_lookup_store hy).elim hnil hunlisted

/-- A change of an animator that does not list the root; of the root itself, one of the list alone. -/
theorem modify (hr : a.Roots h x) (g : Handle) {f : Animation → Animation}
    (hlist : ∀ y, h ∉ y.children → h ∉ (f y).children)
    (hself : g = h → ∀ y, ∃ l, f y = { y with children := l }) : (a.modify g f).Roots h x := by
  obtain ⟨hfirst, ⟨l, hl⟩, htaken, hunlisted⟩ := hr
  refine ⟨hfirst, ?_, by rwa [free_modify], fun {p y} hy => ?_⟩
  · rw [get?_modify]
    split
    · obtain ⟨l', hl'⟩ := hself (‹h = g›).symm { x with children := l }
      exact ⟨l', by rw [← ‹h = g›, hl, Option.map_some, hl']⟩
    · exact ⟨l, hl⟩
  · rw [get?_modify] at hy
    split at hy
    · obtain ⟨z, hz, rfl⟩ := Option.map_eq_some_iff.mp hy
      exact hlist z (hunlisted hz)
    · exact hunlisted hy

theorem seek (hr : a.Roots h x) {f : Animation → Animation} {k : Nat}
    (hf : ∀ l, f { x with children := l } = { x with children := l, cursor := k }) :
    (a.modify h f).Roots h { x with cursor := k } := by
  obtain ⟨hfirst, ⟨l, hl⟩, htaken, hunlisted⟩ := hr
  refine ⟨hfirst, ⟨l, ?_⟩, by rwa [free_modify], fun {p y} hy => ?_⟩
  · rw [get?_modify, if_pos rfl, hl, Option.map_some, hf]
  · rw [get?_modify] at hy
    split at hy
    · rw [hl, Option.map_some, hf] at hy
      cases hy
      exact fun hin => hunlisted hl hin
    · exact hunlisted hy

theorem freeAll {free : List UInt32} (hr : Roots ⟨slots, free⟩ h x) (n : Nat)
    (stack : List Handle) (hout : h ∉ stack) :
    (Arena.freeAll slots free n stack).2.Roots h x := by
  fun_induction Arena.freeAll slots free n stack with
  | case1 slots free n => exact hr
  | case2 slots free n g stack hg ih => exact ih hr fun hin => hout (List.mem_cons_of_mem _ hin)
  | case3 slots free n g stack y hg ih =>
    obtain ⟨hfirst, ⟨l, hl⟩, htaken, hunlisted⟩ := hr
    rw [List.mem_cons, not_or] at hout
    have hi := index_ne_of_ne hl hg (Ne.symm hout.1)
    have hchildren := hunlisted hg
    refine ih ⟨hfirst, ⟨l, ?_⟩, ?_, fun {p z} hz => ?_⟩ ?_
    · exact (lookup_store_of_index_ne hi.symm _).trans hl
    · rw [List.mem_cons, not_or]
      exact ⟨hi.symm, htaken⟩
    · rcases lookup_of_lookup_store hz with hz | hz
      · cases hz
      · exact hunlisted hz
    · rw [List.mem_append, List.mem_reverse, not_or]
      exact ⟨hchildren, hout.2⟩

theorem retire (hr : a.Roots h x) (hg : g ≠ h) : (a.retire g).2.Roots h x := by
  unfold Arena.retire
  split
  · exact hr
  · refine freeAll ?_ 0 [g] (by simpa using Ne.symm hg)
    unfold unlink
    split
    · exact hr
    · refine hr.modify _ (fun y hy hin => hy ((List.mem_filter.mp hin).1)) fun _ y => ⟨_, rfl⟩

theorem spawn (hr : a.Roots h x) (t : Timeline) (owner : Handle) (d : Nat) :
    (a.spawn t owner d).1 ≠ h ∧ (a.spawn t owner d).2.Roots h x := by
  obtain ⟨hne, halloc⟩ := hr.alloc t (some owner) d
  refine ⟨hne, halloc.modify owner (fun y hy hin => ?_) fun _ y => ⟨_, rfl⟩⟩
  rcases List.mem_append.mp hin with hin | hin
  · exact hy hin
  · exact hne (List.mem_singleton.mp hin).symm

end Roots

end SceneReel.Arena
