import SceneReel.Animator.Arena

/-!
What the operations of an arena do to its look-ups. An arena is seen as a partial map from handles to
animators; `Stored` and `Fits` are what makes a new handle one that nothing was found under.
-/
namespace SceneReel.Arena

variable {slots : Array Slot} {a : Arena} {h k : Handle} {x : Animation}

theorem lookup_eq_some_iff :
    lookup slots h = some x ↔ slots[h.index.toNat]? = some ⟨h.generation, some x⟩ := by
  unfold lookup
  cases hs : slots[h.index.toNat]? with
  | none => simp
  | some slot =>
    obtain ⟨g, y⟩ := slot
    by_cases hg : g = h.generation <;> simp [hg]

theorem lookup_eq_none_of_empty {g : UInt32} (hs : slots[h.index.toNat]? = some ⟨g, none⟩) :
    lookup slots h = none := by
  simp [lookup, hs]

theorem lookup_store (hx : lookup slots h = some x) (y : Option Animation) (k : Handle) :
    lookup (store slots h y) k = if k = h then y else lookup slots k := by
  have hs := lookup_eq_some_iff.mp hx
  have hi : h.index.toNat < slots.size := (Array.getElem?_eq_some_iff.mp hs).1
  unfold lookup store
  rw [Array.getElem?_setIfInBounds]
  by_cases hk : h.index = k.index
  · by_cases hg : h.generation = k.generation
    · have : k = h := by cases h; cases k; simp_all
      simp [this, hi]
    · have : k ≠ h := fun he => hg (congrArg Handle.generation he.symm)
      rw [hk] at hs hi
      simp only [hk, if_true, hi, hg, if_false, this, hs]
  · have : k ≠ h := fun he => hk (congrArg Handle.index he.symm)
    have : h.index.toNat ≠ k.index.toNat := fun he => hk (UInt32.toNat_inj.mp he)
    simp [*]

@[simp] theorem size_store (slots : Array Slot) (h : Handle) (y : Option Animation) :
    (store slots h y).size = slots.size := by
  simp [store]

theorem isLive_iff : a.isLive h = true ↔ ∃ x, a.get? h = some x := by
  simp [isLive, Option.isSome_iff_exists]

theorem get?_modify (a : Arena) (h : Handle) (f : Animation → Animation) (k : Handle) :
    (a.modify h f).get? k = if k = h then (a.get? h).map f else a.get? k := by
  unfold modify
  cases hx : a.get? h with
  | none =>
    by_cases hk : k = h <;> simp [hk, hx]
  | some x => exact lookup_store hx _ k

@[simp] theorem size_modify (a : Arena) (h : Handle) (f : Animation → Animation) :
    (a.modify h f).slots.size = a.slots.size := by
  unfold modify
  split <;> simp

@[simp] theorem free_modify (a : Arena) (h : Handle) (f : Animation → Animation) :
    (a.modify h f).free = a.free := by
  unfold modify
  split <;> rfl

/-- The free list names the empty slots, each once. -/
structure Stored (a : Arena) : Prop where
  nodup : a.free.Nodup
  mem_free_iff : ∀ i, i ∈ a.free ↔ ∃ g, a.slots[i.toNat]? = some ⟨g, none⟩

/-- Every slot has a 32-bit index of its own; past that, a new handle repeats an old one. -/
def Fits (a : Arena) : Prop :=
  a.slots.size ≤ UInt32.size

instance (a : Arena) : Decidable a.Fits :=
  inferInstanceAs (Decidable (a.slots.size ≤ UInt32.size))

theorem Stored.empty : Stored {} :=
  ⟨List.nodup_nil, fun i => by simp⟩

theorem Stored.store (hs : a.Stored) (hx : a.get? h = some x) (y : Animation) :
    Stored { a with slots := Arena.store a.slots h (some y) } := by
  refine ⟨hs.nodup, fun i => (hs.mem_free_iff i).trans ?_⟩
  have hl := lookup_eq_some_iff.mp hx
  simp only [Arena.store, Array.getElem?_setIfInBounds]
  by_cases hi : h.index.toNat = i.toNat
  · rw [hi] at hl
    simp [hi, hl]
  · simp [hi]

theorem Stored.modify (hs : a.Stored) (h : Handle) (f : Animation → Animation) :
    (a.modify h f).Stored := by
  unfold Arena.modify
  cases hx : a.get? h with
  | none => exact hs
  | some x => exact hs.store hx (f x)

theorem Stored.free (hs : a.Stored) (hx : a.get? h = some x) :
    Stored { slots := Arena.store a.slots h none, free := h.index :: a.free } := by
  have hl := lookup_eq_some_iff.mp hx
  have hi : h.index.toNat < a.slots.size := (Array.getElem?_eq_some_iff.mp hl).1
  have hfree : h.index ∉ a.free := by
    rw [hs.mem_free_iff, hl]
    simp
  refine ⟨List.nodup_cons.mpr ⟨hfree, hs.nodup⟩, fun i => ?_⟩
  simp only [Arena.store, Array.getElem?_setIfInBounds, List.mem_cons, hs.mem_free_iff i]
  by_cases he : i = h.index
  · simp [he, hi]
  · have : h.index.toNat ≠ i.toNat := fun e => he (UInt32.toNat_inj.mp e.symm)
    simp [he, this]

/-- A further slot is pushed only when every slot is taken. -/
theorem alloc_of_free_nil (hf : a.free = []) (t : Timeline) (p : Option Handle) (d : Nat) :
    a.alloc t p d = (⟨UInt32.ofNat (min a.slots.size (UInt32.size - 1)), 0⟩,
      { a with slots := a.slots.push ⟨0, some { timeline := t, parent := p, depth := d }⟩ }) := by
  simp [alloc, hf]

theorem alloc_of_free_cons {i : UInt32} {free : List UInt32} (hf : a.free = i :: free)
    (t : Timeline) (p : Option Handle) (d : Nat) :
    a.alloc t p d = (⟨i, a.generationAt i + 1⟩,
      { slots := Arena.store a.slots ⟨i, a.generationAt i + 1⟩
          (some { timeline := t, parent := p, depth := d }), free }) := by
  simp [alloc, hf]

theorem size_le_size_alloc (a : Arena) (t : Timeline) (p : Option Handle) (d : Nat) :
    a.slots.size ≤ (a.alloc t p d).2.slots.size := by
  cases hf : a.free with
  | nil => simp [alloc_of_free_nil hf]
  | cons i free => simp [alloc_of_free_cons hf]

/-- The index that the next slot pushed gets, while there is one left. -/
theorem toNat_index_push (hsize : a.slots.size < UInt32.size) :
    (UInt32.ofNat (min a.slots.size (UInt32.size - 1))).toNat = a.slots.size := by
  have hmin : min a.slots.size (UInt32.size - 1) = a.slots.size := by omega
  rw [hmin, UInt32.toNat_ofNat_of_lt' hsize]

/-- A new handle is one that nothing was found under, and nothing else changes. -/
theorem Stored.get?_alloc (hs : a.Stored) {t : Timeline} {p : Option Handle} {d : Nat}
    (hfit : (a.alloc t p d).2.Fits) :
    a.get? (a.alloc t p d).1 = none ∧ ∀ k, (a.alloc t p d).2.get? k =
      if k = (a.alloc t p d).1 then some { timeline := t, parent := p, depth := d }
      else a.get? k := by
  cases hf : a.free with
  | nil =>
    rw [alloc_of_free_nil hf] at hfit ⊢
    have hsize : a.slots.size < UInt32.size := Nat.lt_of_succ_le (by simpa [Fits] using hfit)
    have hi := toNat_index_push hsize
    generalize UInt32.ofNat (min a.slots.size (UInt32.size - 1)) = i at hi ⊢
    refine ⟨by simp [get?, lookup, hi], fun k => ?_⟩
    simp only [get?, lookup, Array.getElem?_push]
    by_cases hk : k.index = i
    · by_cases hg : k.generation = 0
      · have : k = ⟨i, 0⟩ := by cases k; simp_all
        simp [this, hi]
      · have : k ≠ ⟨i, 0⟩ := fun he => hg (congrArg Handle.generation he)
        simp [this, hk, hi, Ne.symm hg]
    · have : k ≠ ⟨i, 0⟩ := fun he => hk (congrArg Handle.index he)
      have : k.index.toNat ≠ a.slots.size := fun he => hk (UInt32.toNat_inj.mp (he.trans hi.symm))
      simp [*]
  | cons i free =>
    rw [alloc_of_free_cons hf]
    obtain ⟨g, hg⟩ := (hs.mem_free_iff i).mp (hf ▸ List.mem_cons_self)
    have hi : i.toNat < a.slots.size := (Array.getElem?_eq_some_iff.mp hg).1
    refine ⟨lookup_eq_none_of_empty hg, fun k => ?_⟩
    generalize a.generationAt i + 1 = g'
    simp only [get?, lookup, Arena.store, Array.getElem?_setIfInBounds]
    by_cases hk : k.index = i
    · by_cases hk' : k.generation = g'
      · have : k = ⟨i, g'⟩ := by cases k; simp_all
        simp [this, hi]
      · have : k ≠ ⟨i, g'⟩ := fun he => hk' (congrArg Handle.generation he)
        simp only [hk, if_true, hi, Ne.symm hk', if_false, this, hg, ite_self]
    · have : k ≠ ⟨i, g'⟩ := fun he => hk (congrArg Handle.index he)
      have : i.toNat ≠ k.index.toNat := fun he => hk (UInt32.toNat_inj.mp he.symm)
      simp [*]

theorem Stored.alloc (hs : a.Stored) (t : Timeline) (p : Option Handle) (d : Nat) :
    (a.alloc t p d).2.Stored := by
  cases hf : a.free with
  | nil =>
    rw [alloc_of_free_nil hf]
    refine ⟨hf ▸ List.nodup_nil, fun i => (hs.mem_free_iff i).trans ?_⟩
    simp only [Array.getElem?_push]
    by_cases hi : i.toNat = a.slots.size
    · simp [hi]
    · simp [hi]
  | cons i free =>
    rw [alloc_of_free_cons hf]
    have hnodup := List.nodup_cons.mp (hf ▸ hs.nodup)
    obtain ⟨g, hg⟩ := (hs.mem_free_iff i).mp (hf ▸ List.mem_cons_self)
    have hi : i.toNat < a.slots.size := (Array.getElem?_eq_some_iff.mp hg).1
    refine ⟨hnodup.2, fun j => ?_⟩
    have hj := hs.mem_free_iff j
    simp only [hf, List.mem_cons] at hj
    simp only [Arena.store, Array.getElem?_setIfInBounds]
    by_cases he : j = i
    · simp [he, hnodup.1, hi]
    · have : i.toNat ≠ j.toNat := fun e => he (UInt32.toNat_inj.mp e.symm)
      simp only [this, if_false, ← hj, he, false_or]

end SceneReel.Arena
