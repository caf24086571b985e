import SceneReel.Proofs.Arena.Retire

/-!
The operations of an arena do not look at the timelines in it: a change of all of them commutes with each
operation.
-/
namespace SceneReel

def Animation.mapTimeline (f : Timeline → Timeline) (x : Animation) : Animation :=
  { x with timeline := f x.timeline }

def Slot.mapTimeline (f : Timeline → Timeline) (s : Slot) : Slot :=
  { s with animation? := s.animation?.map (Animation.mapTimeline f) }

namespace Arena

/-- The arena with all timelines changed. -/
def mapTimelines (f : Timeline → Timeline) (a : Arena) : Arena :=
  { a with slots := a.slots.map (Slot.mapTimeline f) }

variable {f : Timeline → Timeline} {slots : Array Slot} {a : Arena} {h : Handle}

theorem lookup_mapTimeline (slots : Array Slot) (h : Handle) :
    lookup (slots.map (Slot.mapTimeline f)) h = (lookup slots h).map (Animation.mapTimeline f) := by
  unfold lookup
  rw [Array.getElem?_map]
  cases slots[h.index.toNat]? with
  | none => rfl
  | some slot =>
    simp only [Option.map_some, Slot.mapTimeline]
    split <;> rfl

theorem get?_mapTimelines (a : Arena) (h : Handle) :
    (a.mapTimelines f).get? h = (a.get? h).map (Animation.mapTimeline f) :=
  lookup_mapTimeline a.slots h

theorem store_mapTimeline (slots : Array Slot) (h : Handle) (x? : Option Animation) :
    store (slots.map (Slot.mapTimeline f)) h (x?.map (Animation.mapTimeline f)) =
      (store slots h x?).map (Slot.mapTimeline f) := by
  simp [store, Array.map_setIfInBounds, Slot.mapTimeline]

theorem generationAt_mapTimelines (a : Arena) (i : UInt32) :
    (a.mapTimelines f).generationAt i = a.generationAt i := by
  unfold generationAt mapTimelines
  rw [Array.getElem?_map]
  cases a.slots[i.toNat]? <;> rfl

theorem modify_mapTimelines (a : Arena) (h : Handle) {g : Animation → Animation}
    (hg : ∀ x, g (x.mapTimeline f) = (g x).mapTimeline f) :
    (a.mapTimelines f).modify h g = (a.modify h g).mapTimelines f := by
  unfold modify
  rw [get?_mapTimelines]
  cases a.get? h with
  | none => rfl
  | some x =>
    simp only [Option.map_some, hg, mapTimelines]
    rw [← store_mapTimeline]
    rfl

theorem alloc_mapTimelines (a : Arena) (t : Timeline) (p : Option Handle) (d : Nat) :
    (a.mapTimelines f).alloc (f t) p d = ((a.alloc t p d).1, (a.alloc t p d).2.mapTimelines f) := by
  cases hf : a.free with
  | nil =>
    rw [alloc_of_free_nil hf, alloc_of_free_nil (a := a.mapTimelines f) hf]
    simp [mapTimelines, Slot.mapTimeline, Animation.mapTimeline]
  | cons i free =>
    rw [alloc_of_free_cons hf, alloc_of_free_cons (a := a.mapTimelines f) hf,
      generationAt_mapTimelines]
    simp only [mapTimelines, ← store_mapTimeline]
    rfl

theorem spawn_mapTimelines (a : Arena) (t : Timeline) (owner : Handle) (d : Nat) :
    (a.mapTimelines f).spawn (f t) owner d =
      ((a.spawn t owner d).1, (a.spawn t owner d).2.mapTimelines f) := by
  simp only [spawn, alloc_mapTimelines]
  rw [modify_mapTimelines]
  exact fun _ => rfl

theorem freeAll_mapTimelines (slots : Array Slot) (free : List UInt32) (n : Nat)
    (stack : List Handle) :
    freeAll (slots.map (Slot.mapTimeline f)) free n stack =
      ((freeAll slots free n stack).1, (freeAll slots free n stack).2.mapTimelines f) := by
  fun_induction freeAll slots free n stack with
  | case1 slots free n =>
    rw [freeAll]
    rfl
  | case2 slots free n h stack hx ih =>
    have hmapped := lookup_mapTimeline (f := f) slots h
    rw [hx, Option.map_none] at hmapped
    rw [freeAll]
    split
    · exact ih
    · rename_i y hy
      rw [hmapped] at hy
      cases hy
  | case3 slots free n h stack x hx ih =>
    have hmapped := lookup_mapTimeline (f := f) slots h
    rw [hx, Option.map_some] at hmapped
    rw [freeAll]
    split
    · rename_i hy
      rw [hmapped] at hy
      cases hy
    · rename_i y hy
      rw [hmapped] at hy
      cases hy
      have hstore := store_mapTimeline (f := f) slots h none
      rw [Option.map_none] at hstore
      rw [hstore]
      exact ih

theorem retire_mapTimelines (a : Arena) (h : Handle) :
    (a.mapTimelines f).retire h = ((a.retire h).1, (a.retire h).2.mapTimelines f) := by
  have hget : (a.mapTimelines f).get? h = _ := get?_mapTimelines a h
  cases hx : a.get? h with
  | none =>
    rw [hx, Option.map_none] at hget
    rw [retire_of_dead hx, retire_of_dead hget]
  | some x =>
    have hunlink : (a.mapTimelines f).unlink h x.parent = (a.unlink h x.parent).mapTimelines f := by
      cases x.parent with
      | none => rfl
      | some p => exact modify_mapTimelines a p fun _ => rfl
    rw [hx, Option.map_some] at hget
    rw [retire_of_live hx, retire_of_live hget]
    have hparent : (x.mapTimeline f).parent = x.parent := rfl
    rw [hparent, hunlink]
    exact freeAll_mapTimelines _ _ 0 [h]

end Arena

end SceneReel
