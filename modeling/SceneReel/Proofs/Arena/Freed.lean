import SceneReel.Proofs.Arena.Census
import SceneReel.Proofs.Arena.Operations
import SceneReel.Proofs.Arena.Rooted

/-!
Which animators a retirement frees. They go onto the free list one by one, and are in the end those that
were live and no longer are: the retired animator and all below it.
-/
namespace SceneReel.Arena

variable {slots : Array Slot} {a : Arena} {h k : Handle} {x : Animation}

/-- Freeing a stack comes to a list of animators: they were live and no longer are, and their slots
become free in turn. -/
theorem exists_freed (slots : Array Slot) (free : List UInt32) (n : Nat) (stack : List Handle) :
    ∃ freed : List Handle, freed.Nodup ∧
      (∀ k, k ∈ freed ↔ (∃ x, lookup slots k = some x) ∧
        lookup (freeAll slots free n stack).2.slots k = none) ∧
      (freeAll slots free n stack).1 = n + freed.length ∧
      (freeAll slots free n stack).2.free = freed.map Handle.index ++ free := by
  fun_induction freeAll slots free n stack with
  | case1 slots free n =>
    refine ⟨[], List.nodup_nil, fun k => ⟨fun hk => (List.not_mem_nil hk).elim, ?_⟩, rfl, rfl⟩
    rintro ⟨⟨x, hx⟩, hdead⟩
    rw [hdead] at hx
    cases hx
  | case2 slots free n h stack hx ih => exact ih
  | case3 slots free n h stack x hx ih =>
    obtain ⟨freed, hnodup, hmem, hcount, hfree⟩ := ih
    have hstore : ∀ k, lookup (store slots h none) k = if k = h then none else lookup slots k :=
      lookup_store hx none
    have hgone : h ∉ freed := by
      intro hin
      obtain ⟨⟨y, hy⟩, -⟩ := (hmem h).mp hin
      rw [hstore, if_pos rfl] at hy
      cases hy
    refine ⟨freed ++ [h], ?_, fun k => ?_, ?_, ?_⟩
    · rw [List.nodup_append]
      refine ⟨hnodup, List.nodup_singleton h, fun k hk g hg => ?_⟩
      rw [List.mem_singleton.mp hg]
      rintro rfl
      exact hgone hk
    · rw [List.mem_append, List.mem_singleton, hmem, hstore]
      by_cases hk : k = h
      · subst hk
        have hdead : lookup (freeAll (store slots k none) (k.index :: free) (n + 1)
            (x.children.reverse ++ stack)).2.slots k = none := by
          by_contra hlive
          obtain ⟨y, hy⟩ := Option.ne_none_iff_exists'.mp hlive
          have hearlier := lookup_of_lookup_freeAll hy
          rw [hstore, if_pos rfl] at hearlier
          cases hearlier
        exact ⟨fun _ => ⟨⟨x, hx⟩, hdead⟩, fun _ => .inr rfl⟩
      · rw [if_neg hk, or_iff_left hk]
    · rw [hcount, List.length_append, List.length_singleton]
      omega
    · rw [hfree, List.map_append, List.append_assoc]
      rfl

theorem nodup_index {hs : List Handle} (hnodup : hs.Nodup)
    (hlive : ∀ k ∈ hs, ∃ x, lookup slots k = some x) : (hs.map Handle.index).Nodup := by
  refine hnodup.map_on fun g hg k hk he => ?_
  obtain ⟨x, hx⟩ := hlive k hk
  obtain ⟨y, hy⟩ := hlive g hg
  by_contra hne
  exact index_ne_of_ne hx hy hne he

/-- The live animators that a retirement ends are those below the retired one, itself among them. -/
theorem descends_iff_freed (hf : Forest a.slots) (hx : a.get? h = some x) (k : Handle) :
    Descends a.slots h k ↔ (∃ y, a.get? k = some y) ∧ (a.retire h).2.get? k = none := by
  obtain ⟨hfreed, hleft⟩ := get?_retire hf.kinship hx k
  constructor
  · intro hd
    obtain ⟨y, hy, -⟩ := hf.depth_le hx hd
    exact ⟨⟨y, hy⟩, hfreed hd⟩
  · rintro ⟨⟨y, hy⟩, hdead⟩
    by_contra hd
    rw [hleft hd, hy] at hdead
    split at hdead <;> cases hdead

theorem free_unlink (a : Arena) (h : Handle) (parent : Option Handle) :
    (a.unlink h parent).free = a.free := by
  cases parent with
  | none => rfl
  | some p => exact free_modify a p _

theorem live_unlink_iff (a : Arena) (h : Handle) (parent : Option Handle) (k : Handle) :
    (∃ y, (a.unlink h parent).get? k = some y) ↔ ∃ y, a.get? k = some y := by
  rw [get?_unlink]
  split
  · cases a.get? k <;> simp
  · rfl

/-- To retire a live animator frees that and all below it; the parent loses it from its list, and all
others stay. -/
theorem retire_frees_descendants (hf : Forest a.slots) (h : Handle) :
    (∀ x, a.get? h = some x → ∃ freed : List Handle,
      freed.Nodup ∧ (∀ k, k ∈ freed ↔ Descends a.slots h k) ∧
      (∀ k, k ∈ freed ↔ a.isLive k = true ∧ (a.retire h).2.isLive k = false) ∧
      (a.retire h).1 = freed.length ∧ (a.retire h).2.size + freed.length = a.size ∧
      (freed.map Handle.index).Nodup ∧
      (a.retire h).2.free = freed.map Handle.index ++ a.free ∧
      (a.Stored → (a.retire h).2.free.Nodup) ∧
      ∀ k, k ∉ freed → (a.retire h).2.get? k =
        if x.parent = some k then
          (a.get? k).map fun y => { y with children := y.children.filter (· ≠ h) }
        else a.get? k) ∧
    (a.get? h = none → a.retire h = (0, a)) := by
  refine ⟨fun x hx => ?_, retire_of_dead⟩
  obtain ⟨freed, hnodup, hmem, hcount, hfree⟩ :=
    exists_freed (a.unlink h x.parent).slots (a.unlink h x.parent).free 0 [h]
  rw [← retire_of_live hx] at hmem hcount hfree
  rw [Nat.zero_add] at hcount
  rw [free_unlink] at hfree
  have hbelow : ∀ k, k ∈ freed ↔ Descends a.slots h k := by
    intro k
    rw [descends_iff_freed hf hx, ← live_unlink_iff a h x.parent]
    exact hmem k
  have hlive : ∀ k, k ∈ freed ↔ a.isLive k = true ∧ (a.retire h).2.isLive k = false := by
    intro k
    rw [hbelow, descends_iff_freed hf hx, isLive_iff, isLive, Option.isSome_eq_false_iff,
      Option.isNone_iff_eq_none]
  refine ⟨freed, hnodup, hbelow, hlive, hcount, ?_, ?_, hfree, fun hs => (hs.retire h).nodup,
    fun k hk => ?_⟩
  · rw [← hcount]
    exact live_retire a h
  · exact nodup_index hnodup fun k hk => isLive_iff.mp ((hlive k).mp hk).1
  · exact (get?_retire hf.kinship hx k).2 fun hd => hk ((hbelow k).mpr hd)

def branching : Arena :=
  let (root, a) := alloc {} {} none 0
  let (clip, a) := a.spawn {} root 1
  let (_, a) := a.spawn {} root 1
  let (inner, a) := a.spawn {} clip 2
  (a.spawn {} inner 3).2

/-- The first clip retires with those in it, and the root has the other one left. -/
theorem branching_frees_descendants : Forest branching.slots ∧ branching.isLive ⟨1, 0⟩ = true ∧
    (branching.retire ⟨1, 0⟩).1 = 3 ∧ (branching.retire ⟨1, 0⟩).2.free = [4, 3, 1] ∧
    ((branching.retire ⟨1, 0⟩).2.get? ⟨0, 0⟩).map Animation.children = some [⟨2, 0⟩] ∧
    ∃ x, branching.get? ⟨1, 0⟩ = some x ∧ ∃ freed : List Handle, freed.length = 3 ∧
      (∀ k, k ∈ freed ↔ Descends branching.slots ⟨1, 0⟩ k) ∧
      ∀ k, k ∉ freed → (branching.retire ⟨1, 0⟩).2.get? k =
        if x.parent = some k then
          (branching.get? k).map fun y => { y with children := y.children.filter (· ≠ ⟨1, 0⟩) }
        else branching.get? k := by
  have hroot : (alloc {} {} none 0).2.WellFormed := WellFormed.empty.alloc (by cbv)
  have hclip : ((alloc {} {} none 0).2.spawn {} ⟨0, 0⟩ 1).2.WellFormed :=
    hroot.spawn (x := { timeline := {} }) rfl (by cbv)
  have hother : (((alloc {} {} none 0).2.spawn {} ⟨0, 0⟩ 1).2.spawn {} ⟨0, 0⟩ 1).2.WellFormed :=
    hclip.spawn (x := { timeline := {}, children := [⟨1, 0⟩] }) (by cbv) (by cbv)
  have hinner : ((((alloc {} {} none 0).2.spawn {} ⟨0, 0⟩ 1).2.spawn {} ⟨0, 0⟩ 1).2.spawn {}
      ⟨1, 0⟩ 2).2.WellFormed :=
    hother.spawn (x := { timeline := {}, parent := some ⟨0, 0⟩, depth := 1 }) (by cbv) (by cbv)
  have hw : branching.WellFormed :=
    hinner.spawn (x := { timeline := {}, parent := some ⟨1, 0⟩, depth := 2 }) (by cbv) (by cbv)
  have hforest : Forest branching.slots := hw.forest
  have hcount : (branching.retire ⟨1, 0⟩).1 = 3 := by cbv
  obtain ⟨x, hx⟩ : ∃ x, branching.get? ⟨1, 0⟩ = some x := isLive_iff.mp (by cbv)
  obtain ⟨freed, -, hbelow, -, hlength, -, -, -, -, hleft⟩ :=
    (retire_frees_descendants hforest ⟨1, 0⟩).1 x hx
  exact ⟨hforest, by cbv, hcount, by cbv, by cbv, x, hx, freed, hlength.symm.trans hcount, hbelow,
    hleft⟩

end SceneReel.Arena
