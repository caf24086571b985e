import SceneReel.Proofs.Arena.Retire

/-!
How each operation changes the number of live animators: a new one adds one, and retiring takes away as
many as it says.
-/
namespace SceneReel.Arena

variable {slots : Array Slot} {a : Arena} {h : Handle} {x : Animation}

theorem liveCount_store {slot : Slot} (hs : slots[h.index.toNat]? = some slot)
    (y : Option Animation) :
    liveCount (store slots h y) + (if slot.isLive then 1 else 0) =
      liveCount slots + (if y.isSome then 1 else 0) := by
  obtain ⟨hi, hslot⟩ := Array.getElem?_eq_some_iff.mp hs
  have hpos : slot.isLive = true → 0 < slots.countP Slot.isLive := fun hlive =>
    Array.countP_pos_iff.mpr ⟨slot, Array.mem_of_getElem? hs, hlive⟩
  have hnew : Slot.isLive ⟨h.generation, y⟩ = y.isSome := rfl
  simp only [liveCount, store, Array.setIfInBounds, hi, dif_pos, Array.countP_set, hslot, hnew]
  split
  · have := hpos ‹_›
    omega
  · omega

theorem live_modify (a : Arena) (h : Handle) (f : Animation → Animation) :
    (a.modify h f).size = a.size := by
  unfold modify
  cases hx : a.get? h with
  | none => rfl
  | some x =>
    have hcount := liveCount_store (lookup_eq_some_iff.mp hx) (some (f x))
    simpa [Slot.isLive, size] using hcount

theorem Stored.live_alloc (hs : a.Stored) (t : Timeline) (p : Option Handle) (d : Nat) :
    (a.alloc t p d).2.size = a.size + 1 := by
  cases hf : a.free with
  | nil =>
    rw [alloc_of_free_nil hf]
    rw [size, size, liveCount, liveCount, Array.countP_push]
    rfl
  | cons i free =>
    rw [alloc_of_free_cons hf]
    obtain ⟨g, hg⟩ := (hs.mem_free_iff i).mp (hf ▸ List.mem_cons_self)
    have hcount := liveCount_store (h := ⟨i, a.generationAt i + 1⟩) hg
      (some { timeline := t, parent := p, depth := d })
    simpa [Slot.isLive, size] using hcount

theorem Stored.live_spawn (hs : a.Stored) (t : Timeline) (owner : Handle) (d : Nat) :
    (a.spawn t owner d).2.size = a.size + 1 :=
  (live_modify _ owner _).trans (hs.live_alloc t (some owner) d)

/-- Those that are counted as freed are no longer live, and no others. -/
theorem live_freeAll (slots : Array Slot) (free : List UInt32) (n : Nat) (stack : List Handle) :
    (freeAll slots free n stack).2.size + (freeAll slots free n stack).1 = liveCount slots + n := by
  fun_induction Arena.freeAll slots free n stack with
  | case1 slots free n => rfl
  | case2 slots free n h stack hx ih => exact ih
  | case3 slots free n h stack x hx ih =>
    have hcount := liveCount_store (lookup_eq_some_iff.mp hx) none
    simp only [Slot.isLive, Option.isSome_some, Option.isSome_none, if_true, Bool.false_eq_true,
      if_false] at hcount
    omega

theorem live_retire (a : Arena) (h : Handle) :
    (a.retire h).2.size + (a.retire h).1 = a.size := by
  cases hx : a.get? h with
  | none => rw [retire_of_dead hx, Nat.add_zero]
  | some x =>
    have hunlink : (a.unlink h x.parent).size = a.size := by
      unfold unlink
      split
      · rfl
      · exact live_modify a _ _
    rw [retire_of_live hx, live_freeAll, Nat.add_zero]
    exact hunlink

end SceneReel.Arena
