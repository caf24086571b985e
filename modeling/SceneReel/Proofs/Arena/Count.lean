import Mathlib.Data.List.Nodup
import SceneReel.Proofs.Arena.Lookup

/-!
How many animators are live. They and the free slots make up all slots, so that a slot is added only
when more animators are live than ever before.
-/
namespace SceneReel.Arena

variable {a : Arena} {h : Handle}

def handles (a : Arena) : List Handle :=
  a.slots.toList.zipIdx.filterMap fun p =>
    p.1.animation?.map fun _ => ⟨UInt32.ofNat p.2, p.1.generation⟩

theorem length_handles (a : Arena) : a.handles.length = a.size := by
  have hcount : ∀ (xs : List Slot) (k : Nat), ((xs.zipIdx k).filterMap fun p =>
      p.1.animation?.map fun _ => (⟨UInt32.ofNat p.2, p.1.generation⟩ : Handle)).length =
      xs.countP Slot.isLive := by
    intro xs
    induction xs with
    | nil => simp
    | cons x xs ih =>
      intro k
      rw [List.zipIdx_cons, List.filterMap_cons, List.countP_cons, ← ih (k + 1)]
      cases hx : x.animation? <;> simp [Slot.isLive, hx]
  unfold handles size liveCount
  rw [hcount, Array.countP_toList]

theorem toNat_ofNat_of_lt (hfit : a.Fits) {i : Nat} (hi : i < a.slots.size) :
    (UInt32.ofNat i).toNat = i :=
  UInt32.toNat_ofNat_of_lt' (Nat.lt_of_lt_of_le hi hfit)

theorem mem_handles (hfit : a.Fits) : h ∈ a.handles ↔ ∃ x, a.get? h = some x := by
  unfold handles get?
  simp only [List.mem_filterMap, Prod.exists, List.mem_zipIdx_iff_getElem?, Option.map_eq_some_iff,
    lookup_eq_some_iff, Array.getElem?_toList]
  constructor
  · rintro ⟨⟨g, y⟩, i, hslot, x, hx, rfl⟩
    have hi : i < a.slots.size := (Array.getElem?_eq_some_iff.mp hslot).1
    refine ⟨x, ?_⟩
    simp only at hx ⊢
    rw [toNat_ofNat_of_lt hfit hi, hslot, hx]
  · rintro ⟨x, hx⟩
    refine ⟨_, h.index.toNat, hx, x, rfl, ?_⟩
    simp

theorem nodup_handles (hfit : a.Fits) : a.handles.Nodup := by
  have hascend : a.slots.toList.zipIdx.Pairwise fun p q => p.2 < q.2 := by
    rw [← List.pairwise_map (f := Prod.snd), List.zipIdx_map_snd]
    exact List.pairwise_lt_range' 1
  unfold handles
  rw [List.Nodup, List.pairwise_filterMap]
  refine hascend.imp_of_mem fun {p q} hp hq hlt x hx y hy => ?_
  have hpi : p.2 < a.slots.size := List.snd_lt_of_mem_zipIdx hp
  have hqi : q.2 < a.slots.size := List.snd_lt_of_mem_zipIdx hq
  obtain ⟨_, -, rfl⟩ := Option.map_eq_some_iff.mp hx
  obtain ⟨_, -, rfl⟩ := Option.map_eq_some_iff.mp hy
  intro he
  have hi := congrArg (fun h : Handle => h.index.toNat) he
  simp only [toNat_ofNat_of_lt hfit hpi, toNat_ofNat_of_lt hfit hqi] at hi
  omega

namespace Stored

/-- No slot is in use twice, or in use and free. -/
theorem nodup_indices (hs : a.Stored) (hfit : a.Fits) :
    (a.handles.map Handle.index ++ a.free).Nodup := by
  have hinj : ∀ g ∈ a.handles, ∀ k ∈ a.handles, g.index = k.index → g = k := by
    intro g hg k hk he
    obtain ⟨x, hx⟩ := (mem_handles hfit).mp hg
    obtain ⟨y, hy⟩ := (mem_handles hfit).mp hk
    have hgs := lookup_eq_some_iff.mp hx
    have hks := lookup_eq_some_iff.mp hy
    rw [he, hks] at hgs
    cases g
    cases k
    simp_all
  refine List.nodup_append.mpr ⟨(nodup_handles hfit).map_on hinj, hs.nodup, fun i hi j hj he => ?_⟩
  obtain ⟨g, hg, rfl⟩ := List.mem_map.mp hi
  obtain ⟨x, hx⟩ := (mem_handles hfit).mp hg
  obtain ⟨k, hk⟩ := (hs.mem_free_iff j).mp hj
  have hgs := lookup_eq_some_iff.mp hx
  rw [he, hk] at hgs
  simp at hgs

theorem mem_indices_iff (hs : a.Stored) (hfit : a.Fits) {i : UInt32} :
    i ∈ a.handles.map Handle.index ++ a.free ↔ i.toNat < a.slots.size := by
  rw [List.mem_append, List.mem_map, hs.mem_free_iff]
  constructor
  · rintro (⟨g, hg, rfl⟩ | ⟨g, hg⟩)
    · obtain ⟨x, hx⟩ := (mem_handles hfit).mp hg
      exact (Array.getElem?_eq_some_iff.mp (lookup_eq_some_iff.mp hx)).1
    · exact (Array.getElem?_eq_some_iff.mp hg).1
  · intro hi
    have hget := Array.getElem?_eq_getElem hi
    cases hslot : a.slots[i.toNat] with
    | mk g y =>
      rw [hslot] at hget
      cases y with
      | none => exact .inr ⟨g, hget⟩
      | some x =>
        exact .inl ⟨⟨i, g⟩, (mem_handles hfit).mpr ⟨x, lookup_eq_some_iff.mpr hget⟩, rfl⟩

/-- A slot holds a live animator or is free. -/
theorem size_add_length_free (hs : a.Stored) (hfit : a.Fits) :
    a.size + a.free.length = a.slots.size := by
  have hall : ((List.range a.slots.size).map UInt32.ofNat).Nodup := by
    refine List.nodup_range.map_on fun i hi j hj he => ?_
    rw [List.mem_range] at hi hj
    have hij := congrArg UInt32.toNat he
    rwa [toNat_ofNat_of_lt hfit hi, toNat_ofNat_of_lt hfit hj] at hij
  have hperm : (a.handles.map Handle.index ++ a.free).Perm
      ((List.range a.slots.size).map UInt32.ofNat) := by
    refine (List.perm_ext_iff_of_nodup (hs.nodup_indices hfit) hall).mpr fun i => ?_
    rw [hs.mem_indices_iff hfit, List.mem_map]
    constructor
    · exact fun hi => ⟨i.toNat, List.mem_range.mpr hi, UInt32.ofNat_toNat⟩
    · rintro ⟨j, hj, rfl⟩
      have hlt := List.mem_range.mp hj
      rwa [toNat_ofNat_of_lt hfit hlt]
  have hlength := hperm.length_eq
  simpa [length_handles] using hlength

/-- A slot is added only if more animators are live than there are slots. -/
theorem size_slots_alloc (hs : a.Stored) (hfit : a.Fits) (t : Timeline) (p : Option Handle)
    (d : Nat) : (a.alloc t p d).2.slots.size = max a.slots.size (a.size + 1) := by
  have hsum := hs.size_add_length_free hfit
  cases hf : a.free with
  | nil =>
    rw [hf, List.length_nil] at hsum
    rw [alloc_of_free_nil hf, Array.size_push]
    omega
  | cons i free =>
    rw [hf, List.length_cons] at hsum
    rw [alloc_of_free_cons hf, size_store]
    omega

end Stored

end SceneReel.Arena
