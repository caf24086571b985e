import SceneReel.Proofs.Arena.Forest

/-! Retiring an animator and spawning one keep an arena well formed, and change just what they say. -/
namespace SceneReel.Arena

variable {a : Arena} {h k p : Handle} {x : Animation}

theorem WellFormed.empty : WellFormed {} :=
  ⟨.empty, ⟨fun hx => by simp [lookup] at hx, fun hx => by simp [lookup] at hx⟩⟩

theorem Kinship.modify (hk : Kinship a.slots) (h : Handle) {f : Animation → Animation}
    (hf : ∀ x, (f x).children = x.children ∧ (f x).parent = x.parent) :
    Kinship (a.modify h f).slots := by
  refine ⟨fun {p y c} hy hc => ?_⟩
  obtain ⟨x, hx, hxc⟩ : Lists a.slots p c := by
    replace hy : (a.modify h f).get? p = some y := hy
    rw [get?_modify] at hy
    split at hy
    · obtain ⟨x, hx, rfl⟩ := Option.map_eq_some_iff.mp hy
      exact ⟨x, ‹p = h› ▸ hx, (hf x).1 ▸ hc⟩
    · exact ⟨y, hy, hc⟩
  obtain ⟨z, hz, hparent⟩ := hk.back hx hxc
  have hlook : lookup (a.modify h f).slots c = _ := get?_modify a h f c
  rw [hlook]
  split
  · rw [← ‹c = h›, show a.get? c = some z from hz]
    exact ⟨f z, rfl, (hf z).2.trans hparent⟩
  · exact ⟨z, hz, hparent⟩

theorem WellFormed.modify (hw : a.WellFormed) (h : Handle) {f : Animation → Animation}
    (hf : ∀ x, (f x).children = x.children ∧ (f x).parent = x.parent ∧ (f x).depth = x.depth) :
    (a.modify h f).WellFormed := by
  have hlook : ∀ k, lookup (a.modify h f).slots k = _ := get?_modify a h f
  have hfrom : ∀ {p y}, lookup (a.modify h f).slots p = some y → ∃ x, lookup a.slots p = some x ∧
      y.children = x.children ∧ y.parent = x.parent ∧ y.depth = x.depth := by
    intro p y hy
    rw [hlook] at hy
    split at hy
    · obtain ⟨x, hx, rfl⟩ := Option.map_eq_some_iff.mp hy
      exact ⟨x, ‹p = h› ▸ hx, hf x⟩
    · exact ⟨y, hy, rfl, rfl, rfl⟩
  refine ⟨hw.stored.modify h f, fun hy => ?_, fun {p y c} hy hc => ?_⟩
  · obtain ⟨x, hx, hchildren, -, -⟩ := hfrom hy
    exact hchildren ▸ hw.forest.nodup hx
  · obtain ⟨x, hx, hchildren, -, hdepth⟩ := hfrom hy
    obtain ⟨z, hz, hparent, hz'⟩ := hw.forest.back hx (hchildren ▸ hc)
    rw [hlook, hdepth]
    split
    · subst c
      exact ⟨f z, by rw [show a.get? h = some z from hz]; rfl, (hf z).2.1.trans hparent,
        (hf z).2.2.trans hz'⟩
    · exact ⟨z, hz, hparent, hz'⟩

section Retiring

theorem retire_of_dead (hx : a.get? h = none) : a.retire h = (0, a) := by
  simp [retire, hx]

theorem retire_of_live (hx : a.get? h = some x) :
    a.retire h = freeAll (a.unlink h x.parent).slots (a.unlink h x.parent).free 0 [h] := by
  simp [retire, hx]

/-- No animator lists the one that is about to be freed. -/
private theorem not_lists_unlink (hf : Kinship a.slots) (hx : a.get? h = some x) :
    ∀ g ∈ [h], ∀ p, ¬ Lists (a.unlink h x.parent).slots p g := by
  intro g hg p hl
  rw [List.mem_singleton] at hg
  exact ((lists_unlink_iff hf hx).mp hl).2 hg

/-- Retiring frees the descendants, and takes the animator off the list of its parent. -/
theorem get?_retire (hf : Kinship a.slots) (hx : a.get? h = some x) (k : Handle) :
    (Descends a.slots h k → (a.retire h).2.get? k = none) ∧
    (¬ Descends a.slots h k → (a.retire h).2.get? k =
      if x.parent = some k then
        (a.get? k).map fun x => { x with children := x.children.filter (· ≠ h) }
      else a.get? k) := by
  obtain ⟨hdead, hlive⟩ := lookup_freeAll (a.unlink h x.parent).free 0 [h]
    (hf.unlink h x.parent) (not_lists_unlink hf hx) k
  simp only [List.mem_singleton, exists_eq_left, Descends.unlink hf hx] at hdead hlive
  rw [retire_of_live hx]
  exact ⟨hdead, fun hd => (hlive hd).trans (get?_unlink a h x.parent k)⟩

theorem Stored.retire (hs : a.Stored) (h : Handle) : (a.retire h).2.Stored := by
  cases hx : a.get? h with
  | none => exact (retire_of_dead hx) ▸ hs
  | some x => exact (retire_of_live hx) ▸ stored_freeAll 0 [h] (hs.unlink h x.parent)

theorem WellFormed.retire (hw : a.WellFormed) (h : Handle) : (a.retire h).2.WellFormed := by
  refine ⟨hw.stored.retire h, ?_⟩
  cases hx : a.get? h with
  | none => exact (retire_of_dead hx) ▸ hw.forest
  | some x =>
    rw [retire_of_live hx]
    exact forest_freeAll _ 0 [h] (hw.forest.unlink h x.parent)
      (not_lists_unlink hw.forest.kinship hx)

theorem Kinship.retire (hk : Kinship a.slots) (h : Handle) : Kinship (a.retire h).2.slots := by
  cases hx : a.get? h with
  | none => exact (retire_of_dead hx) ▸ hk
  | some x =>
    rw [retire_of_live hx]
    exact kinship_freeAll _ 0 [h] (hk.unlink h x.parent) (not_lists_unlink hk hx)

theorem size_retire (a : Arena) (h : Handle) : (a.retire h).2.slots.size = a.slots.size := by
  cases hx : a.get? h with
  | none => rw [retire_of_dead hx]
  | some x =>
    rw [retire_of_live hx, size_freeAll]
    cases x.parent with
    | none => rfl
    | some p => exact size_modify a p _

theorem get?_of_get?_retire {y : Animation} (hy : (a.retire h).2.get? k = some y) :
    ∃ x, a.get? k = some x ∧ y.children.Sublist x.children ∧
      y = { x with children := y.children } := by
  cases hx : a.get? h with
  | none =>
    rw [retire_of_dead hx] at hy
    exact ⟨y, hy, .refl _, rfl⟩
  | some x =>
    rw [retire_of_live hx] at hy
    exact get?_of_get?_unlink (lookup_of_lookup_freeAll hy)

/-- Retirement frees the animator, and then all on its list. -/
theorem exists_retire_eq (hx : a.get? h = some x) : ∃ l,
    a.retire h = freeAll (store (a.unlink h x.parent).slots h none)
      (h.index :: (a.unlink h x.parent).free) 1 l := by
  obtain ⟨l, hl⟩ := get?_unlink_of_live hx h x.parent
  rw [retire_of_live hx, freeAll]
  split
  · rename_i hnone
    rw [show (a.unlink h x.parent).get? h = none from hnone] at hl
    cases hl
  · exact ⟨_, rfl⟩

theorem retire_pos (hx : a.get? h = some x) : 0 < (a.retire h).1 := by
  obtain ⟨l, he⟩ := exists_retire_eq hx
  rw [he]
  exact le_freeAll _ 1 _

theorem get?_retire_self (a : Arena) (h : Handle) : (a.retire h).2.get? h = none := by
  cases hx : a.get? h with
  | none => rw [retire_of_dead hx, hx]
  | some x =>
    obtain ⟨l, he⟩ := exists_retire_eq hx
    obtain ⟨l', hl'⟩ := get?_unlink_of_live hx h x.parent
    rw [he]
    cases hy : get? _ h with
    | none => rfl
    | some y =>
      have hstored := lookup_of_lookup_freeAll hy
      rw [lookup_store hl', if_pos rfl] at hstored
      cases hstored

end Retiring

section Spawning

/-- A new animator among the children of its owner. -/
def spawn (a : Arena) (t : Timeline) (owner : Handle) (depth : Nat) : Handle × Arena :=
  let (child, a) := a.alloc t (some owner) depth
  (child, a.modify owner fun x => { x with children := x.children ++ [child] })

variable {t : Timeline} {owner : Handle} {d : Nat}

theorem Fits.of_spawn {a : Arena} (hfit : (a.spawn t owner d).2.Fits) :
    (a.alloc t (some owner) d).2.Fits := by
  simpa [Fits, Arena.spawn] using hfit

theorem size_le_size_spawn (a : Arena) (t : Timeline) (owner : Handle) (d : Nat) :
    a.slots.size ≤ (a.spawn t owner d).2.slots.size := by
  simpa [spawn] using size_le_size_alloc a t (some owner) d

/-- The child gets a handle that was not in use, and nothing changes but the list of its owner. -/
theorem WellFormed.get?_spawn (hw : a.WellFormed) (ho : a.get? owner = some x)
    (hfit : (a.spawn t owner d).2.Fits) :
    a.get? (a.spawn t owner d).1 = none ∧ ∀ k, (a.spawn t owner d).2.get? k =
      if k = (a.spawn t owner d).1 then some { timeline := t, parent := some owner, depth := d }
      else if k = owner then some { x with children := x.children ++ [(a.spawn t owner d).1] }
      else a.get? k := by
  obtain ⟨hfresh, hget⟩ := hw.stored.get?_alloc hfit.of_spawn
  refine ⟨hfresh, fun k => ?_⟩
  have hne : owner ≠ (a.alloc t (some owner) d).1 := by
    intro he
    rw [he, hfresh] at ho
    cases ho
  simp only [spawn, get?_modify, hget]
  by_cases hk : k = owner
  · simp [hk, hne, ho]
  · simp [hk]

theorem Stored.get?_of_get?_spawn (hs : a.Stored) (hfit : (a.spawn t owner d).2.Fits)
    {y : Animation} (hy : (a.spawn t owner d).2.get? k = some y) :
    (k = (a.spawn t owner d).1 ∧
      y = { timeline := t, parent := some owner, depth := d, children := y.children } ∧
      (k ≠ owner → y.children = [])) ∨
    ∃ x, a.get? k = some x ∧ y = { x with children := y.children } := by
  obtain ⟨-, hget⟩ := hs.get?_alloc hfit.of_spawn
  replace hy : ((a.alloc t (some owner) d).2.modify owner fun x =>
      { x with children := x.children ++ [(a.alloc t (some owner) d).1] }).get? k = some y := hy
  show (k = (a.alloc t (some owner) d).1 ∧ _) ∨ _
  rw [get?_modify] at hy
  split at hy
  · subst k
    obtain ⟨z, hz, rfl⟩ := Option.map_eq_some_iff.mp hy
    rw [hget] at hz
    split at hz
    · cases hz
      exact .inl ⟨‹_›, rfl, fun hne => absurd rfl hne⟩
    · exact .inr ⟨z, hz, rfl⟩
  · rw [hget] at hy
    split at hy
    · cases hy
      exact .inl ⟨‹_›, rfl, fun _ => rfl⟩
    · exact .inr ⟨y, hy, rfl⟩

/-- Who is live stays so when an animator is spawned, with that on the list of its owner. -/
theorem Stored.get?_spawn_of_live (hs : a.Stored) (hfit : (a.spawn t owner d).2.Fits)
    (hx : a.get? k = some x) : k ≠ (a.spawn t owner d).1 ∧ (a.spawn t owner d).2.get? k = some
      { x with children := x.children ++ if k = owner then [(a.spawn t owner d).1] else [] } := by
  obtain ⟨hfresh, hget⟩ := hs.get?_alloc hfit.of_spawn
  have hne : k ≠ (a.alloc t (some owner) d).1 := by
    rintro rfl
    rw [hfresh] at hx
    cases hx
  have hold : (a.alloc t (some owner) d).2.get? k = some x := by rw [hget, if_neg hne, hx]
  refine ⟨hne, ?_⟩
  simp only [Arena.spawn, get?_modify]
  by_cases hk : k = owner
  · subst hk
    rw [if_pos rfl, if_pos rfl, hold, Option.map_some]
  · rw [if_neg hk, if_neg hk, List.append_nil, hold]

theorem Stored.children_of_get?_spawn (hs : a.Stored) (hfit : (a.spawn t owner d).2.Fits)
    {y : Animation} (hy : (a.spawn t owner d).2.get? k = some y) :
    ∃ l, (l = [] ∨ ∃ x, a.get? k = some x ∧ x.children = l) ∧
      y.children = l ++ if k = owner then [(a.spawn t owner d).1] else [] := by
  obtain ⟨-, hget⟩ := hs.get?_alloc hfit.of_spawn
  have hbefore : ∀ {z}, (a.alloc t (some owner) d).2.get? k = some z →
      z.children = [] ∨ ∃ x, a.get? k = some x ∧ x.children = z.children := by
    intro z hz
    rw [hget] at hz
    split at hz
    · cases hz
      exact .inl rfl
    · exact .inr ⟨z, hz, rfl⟩
  replace hy : ((a.alloc t (some owner) d).2.modify owner fun x =>
      { x with children := x.children ++ [(a.alloc t (some owner) d).1] }).get? k = some y := hy
  rw [get?_modify] at hy
  split at hy
  · obtain ⟨z, hz, rfl⟩ := Option.map_eq_some_iff.mp hy
    rw [if_pos ‹_›]
    exact ⟨z.children, hbefore (‹k = owner› ▸ hz), rfl⟩
  · rw [if_neg ‹_›]
    exact ⟨y.children, hbefore hy, (List.append_nil _).symm⟩

/-- The new animator refers to its owner, be that live or not. -/
theorem Stored.exists_get?_spawn_self (hs : a.Stored) (hfit : (a.spawn t owner d).2.Fits) :
    ∃ y, (a.spawn t owner d).2.get? (a.spawn t owner d).1 = some y ∧ y.parent = some owner := by
  obtain ⟨-, hget⟩ := hs.get?_alloc hfit.of_spawn
  simp only [Arena.spawn, get?_modify]
  split
  · rw [hget owner, if_pos (Eq.symm ‹_›)]
    exact ⟨_, rfl, rfl⟩
  · exact ⟨_, (hget _).trans (if_pos rfl), rfl⟩

theorem Kinship.spawn (hk : Kinship a.slots) (hs : a.Stored) (hfit : (a.spawn t owner d).2.Fits) :
    Kinship (a.spawn t owner d).2.slots := by
  refine ⟨fun {p y c} hy hc => ?_⟩
  obtain ⟨l, hl, hchildren⟩ := hs.children_of_get?_spawn hfit hy
  rw [hchildren] at hc
  rcases List.mem_append.mp hc with hc | hc
  · rcases hl with rfl | ⟨x, hx, rfl⟩
    · cases hc
    · obtain ⟨z, hz, hparent⟩ := hk.back hx hc
      exact ⟨_, (hs.get?_spawn_of_live hfit hz).2, hparent⟩
  · split at hc
    · rw [List.mem_singleton.mp hc, ‹p = owner›]
      exact hs.exists_get?_spawn_self hfit
    · cases hc

theorem WellFormed.spawn (hw : a.WellFormed) (ho : a.get? owner = some x)
    (hfit : (a.spawn t owner (x.depth + 1)).2.Fits) :
    (a.spawn t owner (x.depth + 1)).2.WellFormed := by
  obtain ⟨-, hget⟩ := hw.get?_spawn ho hfit
  refine ⟨(hw.stored.alloc t (some owner) (x.depth + 1)).modify owner _, ?_⟩
  have hlive := fun {c z} (hz : a.get? c = some z) => hw.stored.get?_spawn_of_live hfit hz
  generalize (a.spawn t owner (x.depth + 1)).1 = child at hget hlive
  have hlook : ∀ k, lookup (a.spawn t owner (x.depth + 1)).2.slots k = _ := hget
  -- who was live has the parent and the depth that it had
  have hstay : ∀ {c z}, a.get? c = some z → ∃ z',
      lookup (a.spawn t owner (x.depth + 1)).2.slots c = some z' ∧ z'.parent = z.parent ∧
        z'.depth = z.depth := fun hz => ⟨_, (hlive hz).2, rfl, rfl⟩
  refine ⟨fun {p y} hy => ?_, fun {p y c} hy hc => ?_⟩
  · rw [hlook] at hy
    split at hy
    · cases hy
      exact List.nodup_nil
    · split at hy
      · cases hy
        have hx : child ∉ x.children := fun hc => by
          obtain ⟨z, hz, -⟩ := hw.forest.back ho hc
          exact (hlive hz).1 rfl
        rw [List.nodup_append]
        exact ⟨hw.forest.nodup ho, by simp, fun c hc d hd => by
          rw [List.mem_singleton.mp hd]
          rintro rfl
          exact hx hc⟩
      · exact hw.forest.nodup hy
  · rw [hlook] at hy
    split at hy
    · cases hy
      cases hc
    · split at hy
      · cases hy
        rcases List.mem_append.mp hc with hc | hc
        · obtain ⟨z, hz, hparent, hdepth⟩ := hw.forest.back ho hc
          obtain ⟨z', hz', hp', hd'⟩ := hstay hz
          exact ⟨z', hz', by rw [hp', hparent, ‹p = owner›], hd'.trans hdepth⟩
        · rw [List.mem_singleton.mp hc, hlook, if_pos rfl, ‹p = owner›]
          exact ⟨_, rfl, rfl, rfl⟩
      · obtain ⟨z, hz, hparent, hdepth⟩ := hw.forest.back hy hc
        obtain ⟨z', hz', hp', hd'⟩ := hstay hz
        exact ⟨z', hz', hp'.trans hparent, hd'.trans hdepth⟩

end Spawning

end SceneReel.Arena
