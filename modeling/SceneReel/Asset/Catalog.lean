import SceneReel.Ids

/-!
Tables of values by character id. The ids ascend, so that a table has one form and none of its ids
repeats; what was set last under an id is what it has.
-/
namespace SceneReel

def insertEntry {α : Type} (id : CharId) (value : α) : List (CharId × α) → List (CharId × α)
  | [] => [(id, value)]
  | (other, x) :: rest =>
    if other = id then (id, value) :: rest
    else if id.value < other.value then (id, value) :: (other, x) :: rest
    else (other, x) :: insertEntry id value rest

theorem mem_insertEntry {α : Type} {id : CharId} {value : α} {xs : List (CharId × α)}
    {entry : CharId × α} (h : entry ∈ insertEntry id value xs) :
    entry = (id, value) ∨ entry ∈ xs := by
  induction xs with
  | nil => exact Or.inl (List.mem_singleton.mp h)
  | cons x rest ih =>
    obtain ⟨other, x⟩ := x
    simp only [insertEntry] at h
    split at h
    · exact (List.mem_cons.mp h).imp_right (List.mem_cons_of_mem _)
    · split at h
      · exact List.mem_cons.mp h
      · rcases List.mem_cons.mp h with h | h
        · exact Or.inr (h ▸ List.mem_cons_self)
        · exact (ih h).imp_right (List.mem_cons_of_mem _)

/-- Ids ascend, so that none of them repeats. -/
def Ascending {α : Type} (xs : List (CharId × α)) : Prop :=
  xs.Pairwise fun x y => x.1.value < y.1.value

theorem Ascending.insertEntry {α : Type} {id : CharId} {value : α} {xs : List (CharId × α)}
    (h : Ascending xs) : Ascending (insertEntry id value xs) := by
  induction xs with
  | nil => exact List.pairwise_singleton _ _
  | cons x rest ih =>
    obtain ⟨other, x⟩ := x
    obtain ⟨hhead, htail⟩ := List.pairwise_cons.mp h
    simp only [SceneReel.insertEntry]
    split
    · next heq => exact List.pairwise_cons.mpr ⟨heq ▸ hhead, htail⟩
    · next hne =>
      split
      · next hlt =>
        refine List.pairwise_cons.mpr ⟨fun entry hmem => ?_, h⟩
        rcases List.mem_cons.mp hmem with rfl | hmem
        · exact hlt
        · exact UInt32.lt_trans hlt (hhead entry hmem)
      · next hle =>
        refine List.pairwise_cons.mpr ⟨fun entry hmem => ?_, ih htail⟩
        rcases mem_insertEntry hmem with rfl | hmem
        · have hne' : other.value ≠ id.value := fun heq => hne (by cases other; cases id; simp_all)
          exact UInt32.lt_of_le_of_ne (UInt32.not_lt.mp hle) hne'
        · exact hhead entry hmem

theorem lookup_cons_entry {α : Type} (other id : CharId) (value : α) (xs : List (CharId × α)) :
    ((id, value) :: xs).lookup other = if other = id then some value else xs.lookup other := by
  rw [List.lookup_cons]
  by_cases h : other = id
  · rw [beq_iff_eq.mpr h, if_pos h]
  · rw [beq_eq_false_iff_ne.mpr h, if_neg h]

theorem lookup_insertEntry {α : Type} (id other : CharId) (value : α) (xs : List (CharId × α)) :
    (insertEntry id value xs).lookup other = if other = id then some value else xs.lookup other := by
  induction xs with
  | nil => exact lookup_cons_entry other id value []
  | cons x rest ih =>
    obtain ⟨key, x⟩ := x
    simp only [insertEntry]
    split
    · next heq =>
      subst heq
      rw [lookup_cons_entry, lookup_cons_entry]
      split <;> rfl
    · next hne =>
      split
      · exact lookup_cons_entry other id value _
      · rw [lookup_cons_entry, lookup_cons_entry, ih]
        by_cases h : other = key
        · have hid : other ≠ id := fun heq => hne (h ▸ heq)
          rw [if_pos h, if_neg hid, if_pos h]
        · rw [if_neg h, if_neg h]

/-- Values by character id. -/
structure Catalog (α : Type) where
  entries : List (CharId × α) := []
  ascending : Ascending entries := by exact List.Pairwise.nil

namespace Catalog

variable {α : Type}

def insert (c : Catalog α) (id : CharId) (value : α) : Catalog α :=
  ⟨insertEntry id value c.entries, c.ascending.insertEntry⟩

def get? (c : Catalog α) (id : CharId) : Option α :=
  c.entries.lookup id

def size (c : Catalog α) : Nat :=
  c.entries.length

theorem get?_insert (c : Catalog α) (id other : CharId) (value : α) :
    (c.insert id value).get? other = if other = id then some value else c.get? other :=
  lookup_insertEntry id other value c.entries

end Catalog

end SceneReel
