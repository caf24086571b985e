import Mathlib.Data.List.Nodup
import SceneReel.Proofs.Arena.Retire

/-!
The handles that an arena has given out. Those of one slot have the generations 0, 1, 2 and so on, so none
is given out twice before the 32 bits of a generation are used up.
-/
namespace SceneReel.Arena

variable {slots : Array Slot} {a a' : Arena} {h : Handle} {x : Animation} {issued : List Handle}

def generationsOf (issued : List Handle) (i : UInt32) : List UInt32 :=
  (issued.filter (·.index = i)).map Handle.generation

theorem generationsOf_snoc (issued : List Handle) (h : Handle) (i : UInt32) :
    generationsOf (issued ++ [h]) i =
      generationsOf issued i ++ if h.index = i then [h.generation] else [] := by
  by_cases hi : h.index = i <;> simp [generationsOf, hi]

theorem length_generationsOf (issued : List Handle) (i : UInt32) :
    (generationsOf issued i).length = issued.countP (·.index = i) := by
  rw [generationsOf, List.length_map, ← List.countP_eq_length_filter]

theorem ofNat_ne_of_lt {m n : Nat} (hlt : m < n) (hnear : n < m + UInt32.size) :
    UInt32.ofNat m ≠ UInt32.ofNat n := by
  intro he
  have hmod := congrArg UInt32.toNat he
  rw [UInt32.toNat_ofNat', UInt32.toNat_ofNat'] at hmod
  rw [show UInt32.size = 2 ^ 32 from rfl] at hnear
  omega

/-- Each slot gave out its generations in order, and has the last of them. -/
structure Numbered (a : Arena) (issued : List Handle) : Prop where
  inOrder : ∀ i, generationsOf issued i =
    (List.range (generationsOf issued i).length).map UInt32.ofNat
  last : ∀ i, (generationsOf issued i).getLast? = a.slots[i.toNat]?.map Slot.generation

def generations (slots : Array Slot) : Array UInt32 :=
  slots.map Slot.generation

theorem getElem?_generations (slots : Array Slot) (i : Nat) :
    (generations slots)[i]? = slots[i]?.map Slot.generation :=
  Array.getElem?_map

section Kept

theorem generations_store (hx : lookup slots h = some x) (y : Option Animation) :
    generations (store slots h y) = generations slots := by
  have hs := lookup_eq_some_iff.mp hx
  refine Array.ext_getElem? fun i => ?_
  rw [getElem?_generations, getElem?_generations, store, Array.getElem?_setIfInBounds]
  split
  · rw [← ‹h.index.toNat = i›, hs, if_pos (Array.getElem?_eq_some_iff.mp hs).1]
    rfl
  · rfl

theorem generations_modify (a : Arena) (h : Handle) (f : Animation → Animation) :
    generations (a.modify h f).slots = generations a.slots := by
  unfold modify
  cases hx : a.get? h with
  | none => rfl
  | some x => exact generations_store hx _

theorem generations_freeAll (free : List UInt32) (n : Nat) (stack : List Handle) :
    generations (freeAll slots free n stack).2.slots = generations slots := by
  fun_induction freeAll slots free n stack with
  | case1 slots free n => rfl
  | case2 slots free n h stack hx ih => exact ih
  | case3 slots free n h stack x hx ih => exact ih.trans (generations_store hx none)

theorem generations_retire (a : Arena) (h : Handle) :
    generations (a.retire h).2.slots = generations a.slots := by
  unfold retire
  split
  · rfl
  · refine (generations_freeAll _ 0 [h]).trans ?_
    unfold unlink
    split
    · rfl
    · exact generations_modify a _ _

end Kept

namespace Numbered

theorem congr (hn : a.Numbered issued) (h : generations a'.slots = generations a.slots) :
    a'.Numbered issued := by
  refine ⟨hn.inOrder, fun i => ?_⟩
  rw [hn.last, ← getElem?_generations, ← getElem?_generations, h]

/-- A handle of the next generation of its slot may be given out, the slot becoming of that generation. -/
theorem snoc (hn : a.Numbered issued)
    (hgen : h.generation = UInt32.ofNat (generationsOf issued h.index).length)
    (hown : a'.slots[h.index.toNat]?.map Slot.generation = some h.generation)
    (hother : ∀ i, i ≠ h.index →
      a'.slots[i.toNat]?.map Slot.generation = a.slots[i.toNat]?.map Slot.generation) :
    a'.Numbered (issued ++ [h]) := by
  refine ⟨fun i => ?_, fun i => ?_⟩
  · rw [generationsOf_snoc]
    by_cases hi : h.index = i
    · subst hi
      rw [if_pos rfl, List.length_append, List.length_singleton, List.range_succ,
        List.map_append, ← hn.inOrder, hgen]
      rfl
    · rw [if_neg hi, List.append_nil]
      exact hn.inOrder i
  · rw [generationsOf_snoc]
    by_cases hi : h.index = i
    · subst hi
      rw [if_pos rfl, List.getLast?_append, hown]
      rfl
    · rw [if_neg hi, List.append_nil, hn.last, hother i (Ne.symm hi)]

theorem alloc (hn : a.Numbered issued) (hs : a.Stored) {t : Timeline} {p : Option Handle} {d : Nat}
    (hfit : (a.alloc t p d).2.Fits) :
    (a.alloc t p d).2.Numbered (issued ++ [(a.alloc t p d).1]) := by
  cases hf : a.free with
  | nil =>
    rw [alloc_of_free_nil hf] at hfit ⊢
    have hsize : a.slots.size < UInt32.size := Nat.lt_of_succ_le (by simpa [Fits] using hfit)
    have hi := toNat_index_push hsize
    generalize UInt32.ofNat (min a.slots.size (UInt32.size - 1)) = i at hi ⊢
    refine hn.snoc (h := ⟨i, 0⟩) ?_ ?_ fun j hj => ?_
    · have hnone := hn.last i
      rw [hi, Array.getElem?_eq_none (Nat.le_refl _), Option.map_none,
        List.getLast?_eq_none_iff] at hnone
      simp [hnone]
    · simp [hi]
    · have hne : j.toNat ≠ a.slots.size := fun he => hj (UInt32.toNat_inj.mp (he.trans hi.symm))
      simp [Array.getElem?_push, hne]
  | cons i free =>
    rw [alloc_of_free_cons hf]
    obtain ⟨g, hg⟩ := (hs.mem_free_iff i).mp (hf ▸ List.mem_cons_self)
    have hi : i.toNat < a.slots.size := (Array.getElem?_eq_some_iff.mp hg).1
    refine hn.snoc (h := ⟨i, a.generationAt i + 1⟩) ?_ ?_ fun j hj => ?_
    · have hlast := hn.last i
      rw [hg, Option.map_some, hn.inOrder i, List.getLast?_map] at hlast
      rw [generationAt, hg]
      dsimp only at hlast ⊢
      cases hlen : (generationsOf issued i).length with
      | zero => simp [hlen] at hlast
      | succ k =>
        rw [hlen, List.range_succ, List.getLast?_append] at hlast
        have hg : UInt32.ofNat k = g := by simpa using hlast
        rw [← hg, UInt32.ofNat_add]
        rfl
    · simp [store, hi]
    · have hne : i.toNat ≠ j.toNat := fun he => hj (UInt32.toNat_inj.mp he.symm)
      simp [store, hne]

theorem spawn (hn : a.Numbered issued) (hs : a.Stored) {t : Timeline} {owner : Handle} {d : Nat}
    (hfit : (a.spawn t owner d).2.Fits) :
    (a.spawn t owner d).2.Numbered (issued ++ [(a.spawn t owner d).1]) := by
  exact (hn.alloc hs hfit.of_spawn).congr (generations_modify _ owner _)

/-- The generations of later handles go on where those of the earlier ones ended. -/
theorem generationsOf_later {later : List Handle} (hn : a.Numbered (issued ++ later)) (i : UInt32) :
    generationsOf later i = (List.range (generationsOf later i).length).map
      fun k => UInt32.ofNat ((generationsOf issued i).length + k) := by
  have hall := hn.inOrder i
  rw [generationsOf, List.filter_append, List.map_append, ← generationsOf, ← generationsOf,
    List.length_append, List.range_add, List.map_append, List.map_map] at hall
  exact List.append_inj_right hall (by simp)

/-- While no slot uses up its generations, none of the later handles is given out twice. -/
theorem nodup_later {later : List Handle} (hn : a.Numbered (issued ++ later))
    (hspare : ∀ i, later.countP (·.index = i) ≤ UInt32.size) : later.Nodup := by
  rw [List.nodup_iff_sublist]
  intro k hk
  have hpair : [k.generation, k.generation].Sublist (generationsOf later k.index) := by
    simpa [generationsOf] using (hk.filter (·.index = k.index)).map Handle.generation
  have hlen := hspare k.index
  rw [← length_generationsOf] at hlen
  have hnodup : (generationsOf later k.index).Nodup := by
    rw [hn.generationsOf_later]
    refine List.nodup_range.map_on fun i hi j hj he => ?_
    rw [List.mem_range] at hi hj
    rcases Nat.lt_trichotomy i j with hij | hij | hij
    · exact absurd he (ofNat_ne_of_lt (by omega) (by omega))
    · exact hij
    · exact absurd he.symm (ofNat_ne_of_lt (by omega) (by omega))
  exact List.nodup_iff_sublist.mp hnodup _ hpair

theorem nodup (hn : a.Numbered issued)
    (hspare : ∀ i, issued.countP (·.index = i) ≤ UInt32.size) : issued.Nodup := by
  have hlater : a.Numbered ([] ++ issued) := hn
  exact hlater.nodup_later hspare

/-- The handle of a live animator is not given out again before its slot has used up the generations. -/
theorem not_mem_later {later : List Handle} (hn : a.Numbered issued)
    (hn' : a'.Numbered (issued ++ later)) (hx : a.get? h = some x)
    (hspare : later.countP (·.index = h.index) < UInt32.size) : h ∉ later := by
  intro hin
  have hgen : h.generation ∈ generationsOf later h.index :=
    List.mem_map_of_mem (List.mem_filter.mpr ⟨hin, decide_eq_true rfl⟩)
  rw [hn'.generationsOf_later] at hgen
  obtain ⟨k, hk, hnext⟩ := List.mem_map.mp hgen
  rw [List.mem_range, length_generationsOf] at hk
  have hlast := hn.last h.index
  rw [lookup_eq_some_iff.mp hx, Option.map_some, hn.inOrder h.index] at hlast
  cases hlen : (generationsOf issued h.index).length with
  | zero => simp [hlen] at hlast
  | succ m =>
    rw [hlen, List.range_succ, List.map_append, List.getLast?_append] at hlast
    have hnow : UInt32.ofNat m = h.generation := Option.some.inj hlast
    rw [hlen] at hnext
    exact ofNat_ne_of_lt (by omega) (by omega) (hnow.trans hnext.symm)

theorem mem_of_live (hn : a.Numbered issued) (hx : a.get? h = some x) : h ∈ issued := by
  have hlast := hn.last h.index
  rw [lookup_eq_some_iff.mp hx, Option.map_some] at hlast
  obtain ⟨k, hk, hgen⟩ := List.mem_map.mp (List.mem_of_getLast? hlast)
  obtain ⟨hk, hindex⟩ := List.mem_filter.mp hk
  have hindex : k.index = h.index := of_decide_eq_true hindex
  have he : k = h := by
    cases k
    cases h
    simp_all
  exact he ▸ hk

end Numbered

end SceneReel.Arena
