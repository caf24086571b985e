import Mathlib.Logic.Relation
import SceneReel.Proofs.Arena.Lookup

/-!
The forest of animators: each lists its children, and each child refers back. Retiring an animator
frees exactly its descendants.
-/
namespace SceneReel

/-- Where nobody has two parents or is below a child of his own, nobody is below two children of one. -/
theorem branch_unique {α : Type} {R : α → α → Prop} (hparent : ∀ {p q c}, R p c → R q c → p = q)
    (hbelow : ∀ {p c}, R p c → ¬ Relation.ReflTransGen R c p) {p c c' k : α} (hc : R p c)
    (hc' : R p c') (hk : Relation.ReflTransGen R c k) (hk' : Relation.ReflTransGen R c' k) :
    c = c' := by
  have hsame : ∀ {b b'}, R p b → R p b' → Relation.ReflTransGen R b b' → b' = b := by
    intro b b' hb hb' hd
    rcases hd.cases_tail with he | ⟨q, hdq, hq⟩
    · exact he
    · rw [hparent hq hb'] at hdq
      exact absurd hdq (hbelow hb)
  have hup : Relator.RightUnique (Function.swap R) := fun _ _ _ hp hq => hparent hp hq
  rcases Relation.ReflTransGen.total_of_right_unique hup (Relation.reflTransGen_swap.mpr hk)
    (Relation.reflTransGen_swap.mpr hk') with hd | hd
  · exact hsame hc' hc (Relation.reflTransGen_swap.mp hd)
  · exact (hsame hc hc' (Relation.reflTransGen_swap.mp hd)).symm

namespace Arena

variable {slots : Array Slot} {a : Arena} {g h k p : Handle} {x : Animation}

/-- A live animator has a handle among its children. -/
def Lists (slots : Array Slot) (p c : Handle) : Prop :=
  ∃ x, lookup slots p = some x ∧ c ∈ x.children

/-- A handle is reached from another by going from animators to their children. -/
def Descends (slots : Array Slot) : Handle → Handle → Prop :=
  Relation.ReflTransGen (Lists slots)

/-- The children of an animator are live and refer back to it. -/
structure Kinship (slots : Array Slot) : Prop where
  back : ∀ {p x c}, lookup slots p = some x → c ∈ x.children →
    ∃ y, lookup slots c = some y ∧ y.parent = some p

/-- The children of an animator are distinct, live, refer back to it and are one level deeper. -/
structure Forest (slots : Array Slot) : Prop where
  nodup : ∀ {p x}, lookup slots p = some x → x.children.Nodup
  back : ∀ {p x c}, lookup slots p = some x → c ∈ x.children →
    ∃ y, lookup slots c = some y ∧ y.parent = some p ∧ y.depth = x.depth + 1

structure WellFormed (a : Arena) : Prop where
  stored : a.Stored
  forest : Forest a.slots

theorem Forest.kinship (hf : Forest slots) : Kinship slots where
  back hx hc := by
    obtain ⟨y, hy, hparent, -⟩ := hf.back hx hc
    exact ⟨y, hy, hparent⟩

theorem Kinship.parent_unique (hk : Kinship slots) {p q c : Handle} (hp : Lists slots p c)
    (hq : Lists slots q c) : p = q := by
  obtain ⟨x, hx, hxc⟩ := hp
  obtain ⟨y, hy, hyc⟩ := hq
  obtain ⟨z, hz, hzp⟩ := hk.back hx hxc
  obtain ⟨z', hz', hzq⟩ := hk.back hy hyc
  rw [hz] at hz'
  cases hz'
  exact Option.some.inj (hzp.symm.trans hzq)

theorem Kinship.live (hk : Kinship slots) (hx : lookup slots g = some x) (hd : Descends slots g k) :
    ∃ y, lookup slots k = some y := by
  rcases hd.cases_tail with rfl | ⟨p, -, y, hy, hc⟩
  · exact ⟨x, hx⟩
  · obtain ⟨z, hz, -⟩ := hk.back hy hc
    exact ⟨z, hz⟩

theorem Forest.depth_le (hf : Forest slots) (hx : lookup slots g = some x)
    (hd : Descends slots g k) : ∃ y, lookup slots k = some y ∧ x.depth ≤ y.depth := by
  induction hd with
  | refl => exact ⟨x, hx, Nat.le_refl _⟩
  | tail _ hl ih =>
    obtain ⟨y, hy, hle⟩ := ih
    obtain ⟨y', hy', hc⟩ := hl
    rw [hy] at hy'
    cases hy'
    obtain ⟨z, hz, -, hdepth⟩ := hf.back hy hc
    exact ⟨z, hz, by omega⟩

/-- An animator does not descend from its children. -/
theorem Forest.not_descends (hf : Forest slots) (hl : Lists slots h g) : ¬ Descends slots g h := by
  intro hd
  obtain ⟨x, hx, hc⟩ := hl
  obtain ⟨y, hy, -, hdepth⟩ := hf.back hx hc
  obtain ⟨x', hx', hle⟩ := hf.depth_le hy hd
  rw [hx] at hx'
  cases hx'
  omega

/-- An animator descends from no more than one child of another. -/
theorem Forest.child_unique (hf : Forest slots) {c c' : Handle} (hc : Lists slots p c)
    (hc' : Lists slots p c') (hk : Descends slots c k) (hk' : Descends slots c' k) : c = c' :=
  branch_unique (R := Lists slots) hf.kinship.parent_unique hf.not_descends hc hc' hk hk'

section Freeing

/-- Without an animator that no other lists, the rest refer back to those that list them. -/
theorem Kinship.store_none (hk : Kinship slots) (hx : lookup slots h = some x)
    (hroot : ∀ p, ¬ Lists slots p h) : Kinship (store slots h none) := by
  have hstay : ∀ {p y}, lookup (store slots h none) p = some y → lookup slots p = some y := by
    intro p y hy
    rw [lookup_store hx] at hy
    split at hy
    · cases hy
    · exact hy
  refine ⟨fun {p y c} hy hc => ?_⟩
  obtain ⟨z, hz, hback⟩ := hk.back (hstay hy) hc
  have hne : c ≠ h := fun he => hroot p ⟨y, hstay hy, he ▸ hc⟩
  exact ⟨z, by rw [lookup_store hx, if_neg hne, hz], hback⟩

theorem Lists.of_store_none (hx : lookup slots h = some x) {c : Handle}
    (hl : Lists (store slots h none) p c) : Lists slots p c ∧ p ≠ h := by
  obtain ⟨y, hy, hc⟩ := hl
  rw [lookup_store hx] at hy
  split at hy
  · cases hy
  · exact ⟨⟨y, hy, hc⟩, ‹_›⟩

/-- No way down from elsewhere leads through an animator that no other lists. -/
theorem Descends.store_none (hx : lookup slots h = some x) (hroot : ∀ p, ¬ Lists slots p h)
    (hd : Descends slots g k) (hg : g ≠ h) : Descends (store slots h none) g k ∧ k ≠ h := by
  induction hd with
  | refl => exact ⟨.refl, hg⟩
  | @tail b c _ hbc ih =>
    obtain ⟨hdb, hb⟩ := ih
    obtain ⟨y, hy, hc⟩ := hbc
    refine ⟨hdb.tail ⟨y, by rw [lookup_store hx, if_neg hb, hy], hc⟩, ?_⟩
    rintro rfl
    exact hroot b ⟨y, hy, hc⟩

theorem descends_of_store_none (hx : lookup slots h = some x)
    (hd : Descends (store slots h none) g k) : Descends slots g k :=
  Relation.ReflTransGen.mono (fun _ _ hl => (Lists.of_store_none hx hl).1) _ _ hd

/-- What is below a stack, its top taken off and replaced by the children of that. -/
theorem descends_pop_iff (hx : lookup slots h = some x)
    (hroot : ∀ p, ¬ Lists slots p h) {stack : List Handle} :
    (∃ g ∈ h :: stack, Descends slots g k) ↔
      k = h ∨ ∃ g, (g ∈ x.children ∨ g ∈ stack) ∧ Descends (store slots h none) g k := by
  constructor
  · rintro ⟨g, hg, hd⟩
    by_cases hgh : g = h
    · subst hgh
      rcases hd.cases_head with rfl | ⟨c, ⟨y, hy, hc⟩, hd⟩
      · exact .inl rfl
      · rw [hx] at hy
        cases hy
        have hch : c ≠ g := fun he => hroot g ⟨x, hx, he ▸ hc⟩
        exact .inr ⟨c, .inl hc, (Descends.store_none hx hroot hd hch).1⟩
    · have hg := (List.mem_cons.mp hg).resolve_left hgh
      exact .inr ⟨g, .inr hg, (Descends.store_none hx hroot hd hgh).1⟩
  · rintro (rfl | ⟨g, hg | hg, hd⟩)
    · exact ⟨k, List.mem_cons_self, .refl⟩
    · exact ⟨h, List.mem_cons_self, .head ⟨x, hx, hg⟩ (descends_of_store_none hx hd)⟩
    · exact ⟨g, List.mem_cons_of_mem _ hg, descends_of_store_none hx hd⟩

/-- The stack of `freeAll` names roots; all below them is freed and nothing else. -/
theorem lookup_freeAll (free : List UInt32) (n : Nat) (stack : List Handle) (hf : Kinship slots)
    (hroots : ∀ g ∈ stack, ∀ p, ¬ Lists slots p g) (k : Handle) :
    ((∃ g ∈ stack, Descends slots g k) →
      lookup (freeAll slots free n stack).2.slots k = none) ∧
    ((¬ ∃ g ∈ stack, Descends slots g k) →
      lookup (freeAll slots free n stack).2.slots k = lookup slots k) := by
  fun_induction freeAll slots free n stack with
  | case1 slots free n => simp
  | case2 slots free n h stack hx ih =>
    obtain ⟨ihdead, ihlive⟩ := ih hf fun g hg => hroots g (List.mem_cons_of_mem _ hg)
    refine ⟨fun ⟨g, hg, hd⟩ => ?_, fun hno => ihlive fun ⟨g, hg, hd⟩ =>
      hno ⟨g, List.mem_cons_of_mem _ hg, hd⟩⟩
    by_cases hin : ∃ g ∈ stack, Descends slots g k
    · exact ihdead hin
    · rw [ihlive hin]
      -- only the stale handle itself is left, and nothing is found under it
      have hgh : g = h := by
        rcases List.mem_cons.mp hg with rfl | hg
        · rfl
        · exact absurd ⟨g, hg, hd⟩ hin
      subst hgh
      rcases hd.cases_head with rfl | ⟨c, ⟨y, hy, -⟩, -⟩
      · exact hx
      · rw [hx] at hy
        cases hy
  | case3 slots free n h stack x hx ih =>
    have hroot := hroots h List.mem_cons_self
    have hroots' : ∀ g ∈ x.children.reverse ++ stack, ∀ p, ¬ Lists (store slots h none) p g := by
      intro g hg p hl
      obtain ⟨hl, hp⟩ := hl.of_store_none hx
      rcases List.mem_append.mp hg with hg | hg
      · exact hp (hf.parent_unique hl ⟨x, hx, List.mem_reverse.mp hg⟩)
      · exact hroots g (List.mem_cons_of_mem _ hg) p hl
    obtain ⟨ihdead, ihlive⟩ := ih (hf.store_none hx hroot) hroots'
    have hsplit : (∃ g ∈ h :: stack, Descends slots g k) ↔
        k = h ∨ ∃ g ∈ x.children.reverse ++ stack, Descends (store slots h none) g k := by
      simp only [List.mem_append, List.mem_reverse]
      exact descends_pop_iff hx hroot
    rw [hsplit]
    by_cases hin : ∃ g ∈ x.children.reverse ++ stack, Descends (store slots h none) g k
    · exact ⟨fun _ => ihdead hin, fun hno => absurd (.inr hin) hno⟩
    · rw [ihlive hin, lookup_store hx]
      exact ⟨fun hd => if_pos (hd.resolve_right hin), fun hno => if_neg fun hk => hno (.inl hk)⟩

theorem lookup_of_lookup_freeAll {free : List UInt32} {n : Nat} {stack : List Handle}
    (hy : lookup (freeAll slots free n stack).2.slots k = some x) : lookup slots k = some x := by
  fun_induction freeAll slots free n stack with
  | case1 slots free n => exact hy
  | case2 slots free n h stack hx ih => exact ih hy
  | case3 slots free n h stack z hz ih =>
    have hstored := ih hy
    rw [lookup_store hz] at hstored
    split at hstored
    · cases hstored
    · exact hstored

/-- Freeing a stack of roots frees no child of an animator that it leaves. -/
theorem lookup_freeAll_child (free : List UInt32) (n : Nat) (stack : List Handle)
    (hk : Kinship slots) (hroots : ∀ g ∈ stack, ∀ p, ¬ Lists slots p g) {c : Handle}
    (hx : lookup (freeAll slots free n stack).2.slots p = some x) (hc : c ∈ x.children) :
    lookup (freeAll slots free n stack).2.slots c = lookup slots c := by
  have hl : Lists slots p c := ⟨x, lookup_of_lookup_freeAll hx, hc⟩
  refine (lookup_freeAll free n stack hk hroots c).2 ?_
  rintro ⟨g, hg, hd⟩
  rcases hd.cases_tail with rfl | ⟨b, hd, hbc⟩
  · exact hroots c hg p hl
  · rw [hk.parent_unique hbc hl] at hd
    rw [(lookup_freeAll free n stack hk hroots p).1 ⟨g, hg, hd⟩] at hx
    cases hx

theorem kinship_freeAll (free : List UInt32) (n : Nat) (stack : List Handle) (hk : Kinship slots)
    (hroots : ∀ g ∈ stack, ∀ p, ¬ Lists slots p g) :
    Kinship (freeAll slots free n stack).2.slots := by
  refine ⟨fun hx hc => ?_⟩
  rw [lookup_freeAll_child free n stack hk hroots hx hc]
  exact hk.back (lookup_of_lookup_freeAll hx) hc

theorem forest_freeAll (free : List UInt32) (n : Nat) (stack : List Handle) (hf : Forest slots)
    (hroots : ∀ g ∈ stack, ∀ p, ¬ Lists slots p g) :
    Forest (freeAll slots free n stack).2.slots := by
  refine ⟨fun hx => hf.nodup (lookup_of_lookup_freeAll hx), fun hx hc => ?_⟩
  rw [lookup_freeAll_child free n stack hf.kinship hroots hx hc]
  exact hf.back (lookup_of_lookup_freeAll hx) hc

theorem stored_freeAll {free : List UInt32} (n : Nat) (stack : List Handle)
    (hs : Stored { slots, free }) : (freeAll slots free n stack).2.Stored := by
  fun_induction freeAll slots free n stack with
  | case1 slots free n => exact hs
  | case2 slots free n h stack hx ih => exact ih hs
  | case3 slots free n h stack x hx ih => exact ih (hs.free hx)

theorem size_freeAll (free : List UInt32) (n : Nat) (stack : List Handle) :
    (freeAll slots free n stack).2.slots.size = slots.size := by
  fun_induction freeAll slots free n stack with
  | case1 slots free n => rfl
  | case2 slots free n h stack hx ih => exact ih
  | case3 slots free n h stack x hx ih => rw [ih, size_store]

theorem le_freeAll (free : List UInt32) (n : Nat) (stack : List Handle) :
    n ≤ (freeAll slots free n stack).1 := by
  fun_induction freeAll slots free n stack with
  | case1 slots free n => exact Nat.le_refl n
  | case2 slots free n h stack hx ih => exact ih
  | case3 slots free n h stack x hx ih => exact Nat.le_of_succ_le ih

end Freeing

section Retiring

theorem get?_unlink (a : Arena) (h : Handle) (parent : Option Handle) (k : Handle) :
    (a.unlink h parent).get? k =
      if parent = some k then
        (a.get? k).map fun x => { x with children := x.children.filter (· ≠ h) }
      else a.get? k := by
  cases parent with
  | none => simp [unlink]
  | some p =>
    rw [unlink, get?_modify]
    by_cases hk : k = p
    · simp [hk]
    · have : p ≠ k := fun he => hk he.symm
      simp [hk, this]

theorem lists_unlink_iff (hk : Kinship a.slots) (hx : a.get? h = some x) {c : Handle} :
    Lists (a.unlink h x.parent).slots p c ↔ Lists a.slots p c ∧ c ≠ h := by
  have hlook : ∀ k, lookup (a.unlink h x.parent).slots k = _ := get?_unlink a h x.parent
  unfold Lists
  simp only [hlook]
  by_cases hp : x.parent = some p
  · simp only [hp, if_true, Option.map_eq_some_iff]
    constructor
    · rintro ⟨_, ⟨y, hy, rfl⟩, hc⟩
      simp only [List.mem_filter, decide_eq_true_eq] at hc
      exact ⟨⟨y, hy, hc.1⟩, hc.2⟩
    · rintro ⟨⟨y, hy, hc⟩, hne⟩
      exact ⟨_, ⟨y, hy, rfl⟩, by simp [hc, hne]⟩
  · simp only [hp, if_false]
    refine ⟨fun hl => ⟨hl, ?_⟩, fun hl => hl.1⟩
    rintro rfl
    obtain ⟨y, hy, hc⟩ := hl
    obtain ⟨z, hz, hback⟩ := hk.back hy hc
    rw [show lookup a.slots c = some x from hx] at hz
    cases hz
    exact hp hback

theorem get?_of_get?_unlink {parent : Option Handle} {y : Animation}
    (hy : (a.unlink h parent).get? k = some y) :
    ∃ x, a.get? k = some x ∧ y.children.Sublist x.children ∧ y = { x with children := y.children } := by
  rw [get?_unlink] at hy
  split at hy
  · obtain ⟨x, hx, rfl⟩ := Option.map_eq_some_iff.mp hy
    exact ⟨x, hx, List.filter_sublist, rfl⟩
  · exact ⟨y, hy, List.Sublist.refl _, rfl⟩

theorem get?_unlink_of_live (hx : a.get? k = some x) (h : Handle) (parent : Option Handle) :
    ∃ l, (a.unlink h parent).get? k = some { x with children := l } := by
  rw [get?_unlink, hx]
  split
  · exact ⟨_, rfl⟩
  · exact ⟨x.children, rfl⟩

theorem Kinship.unlink (hk : Kinship a.slots) (h : Handle) (parent : Option Handle) :
    Kinship (a.unlink h parent).slots := by
  refine ⟨fun hy hc => ?_⟩
  obtain ⟨x, hx, hsub, -⟩ := get?_of_get?_unlink hy
  obtain ⟨z, hz, hparent⟩ := hk.back hx (hsub.subset hc)
  obtain ⟨l, hl⟩ := get?_unlink_of_live hz h parent
  exact ⟨_, hl, hparent⟩

theorem Forest.unlink (hf : Forest a.slots) (h : Handle) (parent : Option Handle) :
    Forest (a.unlink h parent).slots := by
  refine ⟨fun hy => ?_, fun hy hc => ?_⟩
  · obtain ⟨x, hx, hsub, -⟩ := get?_of_get?_unlink hy
    exact (hf.nodup hx).sublist hsub
  · obtain ⟨x, hx, hsub, he⟩ := get?_of_get?_unlink hy
    obtain ⟨z, hz, hparent, hdepth⟩ := hf.back hx (hsub.subset hc)
    obtain ⟨l, hl⟩ := get?_unlink_of_live hz h parent
    rw [he]
    exact ⟨_, hl, hparent, hdepth⟩

theorem Stored.unlink (hs : a.Stored) (h : Handle) (parent : Option Handle) :
    (a.unlink h parent).Stored := by
  cases parent with
  | none => exact hs
  | some p => exact hs.modify p _

theorem Descends.unlink (hf : Kinship a.slots) (hx : a.get? h = some x) :
    Descends (a.unlink h x.parent).slots h k ↔ Descends a.slots h k := by
  constructor
  · exact Relation.ReflTransGen.mono (fun _ _ hl => ((lists_unlink_iff hf hx).mp hl).1) _ _
  · intro hd
    induction hd with
    | refl => exact .refl
    | @tail b c _ hbc ih =>
      by_cases hc : c = h
      · exact hc ▸ .refl
      · exact ih.tail ((lists_unlink_iff hf hx).mpr ⟨hbc, hc⟩)

end Retiring

end Arena

end SceneReel
