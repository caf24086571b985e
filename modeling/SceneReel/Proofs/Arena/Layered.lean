import SceneReel.Proofs.Arena.Retire

/-!
The depths of animators. None is deeper than those that it lists, so that to retire an animator leaves all
that are less deep, and what a new animator spawns is below it.
-/
namespace SceneReel.Arena

variable {slots : Array Slot} {a b c : Arena} {e : Nat} {g h k owner : Handle} {x y : Animation}

/-- Live animators are no deeper than those that they list, as far as these are live. -/
def Deepens (slots : Array Slot) : Prop :=
  ∀ p c x y, lookup slots p = some x → c ∈ x.children → lookup slots c = some y → x.depth ≤ y.depth

/-- All animators down to a depth stay live, at the depth they have. -/
def Shelters (e : Nat) (a b : Arena) : Prop :=
  ∀ k x, a.get? k = some x → x.depth ≤ e → ∃ y, b.get? k = some y ∧ y.depth = x.depth

theorem Shelters.refl (e : Nat) (a : Arena) : a.Shelters e a :=
  fun _ x hx _ => ⟨x, hx, rfl⟩

theorem Shelters.trans (hab : a.Shelters e b) (hbc : b.Shelters e c) : a.Shelters e c := by
  intro k x hx hle
  obtain ⟨y, hy, hdepth⟩ := hab k x hx hle
  obtain ⟨z, hz, hdepth'⟩ := hbc k y hy (hdepth ▸ hle)
  exact ⟨z, hz, hdepth'.trans hdepth⟩

theorem Shelters.mono {d : Nat} (h : a.Shelters e b) (hle : d ≤ e) : a.Shelters d b :=
  fun k x hx hd => h k x hx (Nat.le_trans hd hle)

theorem shelters_modify (e : Nat) (a : Arena) (h : Handle) {f : Animation → Animation}
    (hf : ∀ x, (f x).depth = x.depth) : a.Shelters e (a.modify h f) := by
  intro k x hx _
  rw [get?_modify]
  split
  · exact ⟨f x, by rw [← ‹k = h›, hx]; rfl, hf x⟩
  · exact ⟨x, hx, rfl⟩

/-- Freeing what is deeper leaves what is not, as the descendants are deeper still. -/
theorem shelters_freeAll (hd : Deepens slots) (free : List UInt32) (n : Nat) (stack : List Handle)
    (hstack : ∀ g ∈ stack, ∀ x, lookup slots g = some x → e < x.depth) :
    Shelters e ⟨slots, free⟩ (freeAll slots free n stack).2 := by
  fun_induction Arena.freeAll slots free n stack with
  | case1 slots free n => exact .refl e _
  | case2 slots free n h stack hx ih =>
    exact ih hd fun g hg => hstack g (List.mem_cons_of_mem h hg)
  | case3 slots free n h stack x hx ih =>
    have hdeep : e < x.depth := hstack h List.mem_cons_self x hx
    have hback : ∀ {k y}, lookup (store slots h none) k = some y → lookup slots k = some y := by
      intro k y hy
      rw [lookup_store hx] at hy
      split at hy
      · cases hy
      · exact hy
    have hrest : Shelters e ⟨slots, free⟩ ⟨store slots h none, h.index :: free⟩ := by
      intro k y hy hle
      refine ⟨y, ?_, rfl⟩
      have hne : k ≠ h := by
        rintro rfl
        rw [show lookup slots k = some y from hy] at hx
        cases hx
        omega
      exact (lookup_store hx none k).trans ((if_neg hne).trans hy)
    refine hrest.trans (ih (fun p c y z hp hc hz => hd p c y z (hback hp) hc (hback hz)) ?_)
    intro g hg y hy
    rcases List.mem_append.mp hg with hg | hg
    · have hle := hd h g x y hx (List.mem_reverse.mp hg) (hback hy)
      omega
    · exact hstack g (List.mem_cons_of_mem h hg) y (hback hy)

theorem shelters_retire (hd : Deepens a.slots) (hg : ∀ x, a.get? g = some x → e < x.depth) :
    a.Shelters e (a.retire g).2 := by
  cases hx : a.get? g with
  | none =>
    rw [retire_of_dead hx]
    exact .refl e a
  | some x =>
    have hback : ∀ {k y}, (a.unlink g x.parent).get? k = some y →
        ∃ z, a.get? k = some z ∧ y.children ⊆ z.children ∧ y.depth = z.depth := by
      intro k y hy
      rw [get?_unlink] at hy
      split at hy
      · obtain ⟨z, hz, rfl⟩ := Option.map_eq_some_iff.mp hy
        exact ⟨z, hz, List.filter_sublist.subset, rfl⟩
      · exact ⟨y, hy, List.Subset.refl _, rfl⟩
    have hunlink : a.Shelters e (a.unlink g x.parent) := by
      unfold unlink
      split
      · exact .refl e a
      · exact shelters_modify e a _ fun _ => rfl
    rw [retire_of_live hx]
    refine hunlink.trans (shelters_freeAll (fun p c y z hp hc hz => ?_) _ 0 [g] fun k hk y hy => ?_)
    · obtain ⟨y', hy', hsub, hdepth⟩ := hback hp
      obtain ⟨z', hz', -, hdepth'⟩ := hback hz
      rw [hdepth, hdepth']
      exact hd p c y' z' hy' (hsub hc) hz'
    · obtain ⟨y', hy', -, hdepth⟩ := hback hy
      rw [hdepth]
      exact hg y' (List.mem_singleton.mp hk ▸ hy')

section Spawning

variable {t : Timeline} {d : Nat}

theorem Stored.shelters_spawn (hs : a.Stored) (hfit : (a.spawn t owner d).2.Fits) (e : Nat) :
    a.Shelters e (a.spawn t owner d).2 := fun _ _ hx _ =>
  ⟨_, (hs.get?_spawn_of_live hfit hx).2, rfl⟩

theorem Stored.get?_spawn_child (hs : a.Stored) (hfit : (a.spawn t owner d).2.Fits)
    (hne : owner ≠ (a.spawn t owner d).1) : (a.spawn t owner d).2.get? (a.spawn t owner d).1 =
      some { timeline := t, parent := some owner, depth := d } := by
  have hget := (hs.get?_alloc hfit.of_spawn).2 (a.alloc t (some owner) d).1
  rw [if_pos rfl] at hget
  have hne' : (a.alloc t (some owner) d).1 ≠ owner := Ne.symm hne
  exact (get?_modify _ owner _ _).trans ((if_neg hne').trans hget)

end Spawning

/-- Animators list distinct handles that were given out, and are no deeper than those that are live. -/
structure Layered (a : Arena) (issued : List Handle) : Prop where
  nodup : ∀ {p x}, a.get? p = some x → x.children.Nodup
  issued : ∀ {p x}, a.get? p = some x → x.children ⊆ issued
  deepens : Deepens a.slots

namespace Layered

variable {issued : List Handle}

theorem mono (hl : a.Layered issued) (hback : ∀ {k y}, b.get? k = some y →
    ∃ x, a.get? k = some x ∧ y.children.Sublist x.children ∧ y.depth = x.depth) :
    b.Layered issued := by
  refine ⟨fun hy => ?_, fun hy => ?_, fun p c y z hy hc hz => ?_⟩
  · obtain ⟨x, hx, hsub, -⟩ := hback hy
    exact (hl.nodup hx).sublist hsub
  · obtain ⟨x, hx, hsub, -⟩ := hback hy
    exact fun k hk => hl.issued hx (hsub.subset hk)
  · obtain ⟨x, hx, hsub, hdepth⟩ := hback hy
    obtain ⟨w, hw, -, hdepth'⟩ := hback hz
    rw [hdepth, hdepth']
    exact hl.deepens p c x w hx (hsub.subset hc) hw

theorem retire (hl : a.Layered issued) (h : Handle) : (a.retire h).2.Layered issued :=
  hl.mono fun hy => by
    obtain ⟨x, hx, hsub, he⟩ := get?_of_get?_retire hy
    exact ⟨x, hx, hsub, by rw [he]⟩

theorem modify (hl : a.Layered issued) (h : Handle) {f : Animation → Animation}
    (hf : ∀ x, ∃ k, f x = { x with cursor := k }) : (a.modify h f).Layered issued :=
  hl.mono fun {k y} hy => by
    rw [get?_modify] at hy
    split at hy
    · obtain ⟨x, hx, rfl⟩ := Option.map_eq_some_iff.mp hy
      obtain ⟨cursor, he⟩ := hf x
      exact ⟨x, ‹k = h› ▸ hx, by simp [he], by rw [he]⟩
    · exact ⟨y, hy, .refl _, rfl⟩

/-- A new animator that no other has for its owner. -/
theorem alloc (hl : a.Layered issued) (hs : a.Stored) {t : Timeline} {p : Option Handle} {d : Nat}
    (hfit : (a.alloc t p d).2.Fits) (hfresh : (a.alloc t p d).1 ∉ issued) :
    (a.alloc t p d).2.Layered (issued ++ [(a.alloc t p d).1]) := by
  have hget := (hs.get?_alloc hfit).2
  have hback : ∀ {k y}, (a.alloc t p d).2.get? k = some y →
      y.children = [] ∨ a.get? k = some y := by
    intro k y hy
    rw [hget] at hy
    split at hy
    · cases hy
      exact .inl rfl
    · exact .inr hy
  refine ⟨fun hy => ?_, fun hy => ?_, fun q c y z hy hc hz => ?_⟩
  · rcases hback hy with hnil | hx
    · exact hnil ▸ List.nodup_nil
    · exact hl.nodup hx
  · rcases hback hy with hnil | hx
    · rw [hnil]
      exact List.nil_subset _
    · exact fun k hk => List.mem_append_left _ (hl.issued hx hk)
  · rcases hback hy with hnil | hx
    · rw [hnil] at hc
      cases hc
    · have hne : c ≠ (a.alloc t p d).1 := fun he => hfresh (he ▸ hl.issued hx hc)
      refine hl.deepens q c y z hx hc ?_
      rwa [show lookup (a.alloc t p d).2.slots c = _ from hget c, if_neg hne] at hz

theorem push (hl : a.Layered issued) (hg : g ∈ issued)
    (hx : ∀ x, a.get? owner = some x → g ∉ x.children ∧
      ∀ y, a.get? g = some y → x.depth ≤ y.depth) :
    (a.modify owner fun x => { x with children := x.children ++ [g] }).Layered issued := by
  have hback : ∀ {k y}, (a.modify owner fun x => { x with children := x.children ++ [g] }).get? k =
      some y → ∃ x, a.get? k = some x ∧ y.depth = x.depth ∧
        (y.children = x.children ∨ k = owner ∧ y.children = x.children ++ [g]) := by
    intro k y hy
    rw [get?_modify] at hy
    split at hy
    · obtain ⟨x, hx, rfl⟩ := Option.map_eq_some_iff.mp hy
      exact ⟨x, ‹k = owner› ▸ hx, rfl, .inr ⟨‹k = owner›, rfl⟩⟩
    · exact ⟨y, hy, rfl, .inl rfl⟩
  refine ⟨fun hy => ?_, fun hy => ?_, fun p c y z hy hc hz => ?_⟩
  · obtain ⟨x, hold, -, hsame | ⟨rfl, hmore⟩⟩ := hback hy
    · exact hsame ▸ hl.nodup hold
    · rw [hmore, List.nodup_append]
      refine ⟨hl.nodup hold, List.pairwise_singleton _ g, fun c hc d hd he => (hx x hold).1 ?_⟩
      rwa [← List.mem_singleton.mp hd, ← he]
  · obtain ⟨x, hold, -, hsame | ⟨rfl, hmore⟩⟩ := hback hy
    · exact hsame ▸ hl.issued hold
    · rw [hmore]
      exact List.append_subset.mpr ⟨hl.issued hold, by simpa using hg⟩
  · obtain ⟨w, hw, hdepth', -⟩ := hback hz
    obtain ⟨x, hold, hdepth, hsame | ⟨rfl, hmore⟩⟩ := hback hy
    · rw [hdepth, hdepth']
      exact hl.deepens p c x w hold (hsame ▸ hc) hw
    · rw [hdepth, hdepth']
      rcases List.mem_append.mp (hmore ▸ hc) with hc | hc
      · exact hl.deepens p c x w hold hc hw
      · exact (hx x hold).2 w (List.mem_singleton.mp hc ▸ hw)

theorem spawn (hl : a.Layered issued) (hs : a.Stored) {t : Timeline} {d : Nat}
    (hfit : (a.spawn t owner d).2.Fits) (hfresh : (a.spawn t owner d).1 ∉ issued)
    (hdepth : ∀ x, a.get? owner = some x → x.depth ≤ d) :
    (a.spawn t owner d).2.Layered (issued ++ [(a.spawn t owner d).1]) := by
  have hget := (hs.get?_alloc hfit.of_spawn).2
  have hchild := hget (a.alloc t (some owner) d).1
  rw [if_pos rfl] at hchild
  refine (hl.alloc hs hfit.of_spawn hfresh).push (g := (a.alloc t (some owner) d).1)
    (List.mem_append_right _ List.mem_cons_self) fun x hx => ⟨fun hin => ?_, fun y hy => ?_⟩
  · rw [hget] at hx
    split at hx
    · cases hx
      cases hin
    · exact hfresh (hl.issued hx hin)
  · rw [hy] at hchild
    cases hchild
    rw [hget] at hx
    split at hx
    · cases hx
      exact Nat.le_refl d
    · exact hdepth x hx

end Layered

end SceneReel.Arena
