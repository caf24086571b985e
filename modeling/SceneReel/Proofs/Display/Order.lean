import Mathlib.Data.List.Forall2
import Mathlib.Data.List.Perm.Basic
import SceneReel.Display.Siblings

/-!
What the operations on siblings keep: all but extraction only reorder or add, and lists that agree item
by item go on agreeing.
-/
namespace SceneReel.Siblings

variable {α β γ : Type} [DecidableEq γ] {key : α → γ} {key' : β → γ}

theorem contains_iff_mem_map {k : γ} {xs : List α} : contains key k xs = true ↔ k ∈ xs.map key := by
  rw [contains_iff, List.mem_map]

theorem insertBefore_perm (key : α → γ) (x : α) (before : Option γ) (xs : List α) :
    (insertBefore key x before xs).Perm (x :: xs) := by
  cases before with
  | none => exact List.perm_append_singleton x xs
  | some k =>
    rw [insertBefore]
    refine List.perm_middle.trans (List.Perm.cons x ?_)
    rw [List.takeWhile_append_dropWhile]

theorem takeFirst?_perm {k : γ} {xs ys : List α} {x : α} (h : takeFirst? key k xs = some (x, ys)) :
    (x :: ys).Perm xs ∧ key x = k := by
  induction xs generalizing ys with
  | nil => cases h
  | cons z zs ih =>
    rw [takeFirst?] at h
    split at h
    · rename_i hz
      cases h
      exact ⟨.refl _, hz⟩
    · obtain ⟨⟨y, rest⟩, hy, he⟩ := Option.map_eq_some_iff.mp h
      cases he
      obtain ⟨hperm, hkey⟩ := ih hy
      exact ⟨(List.Perm.swap z x rest).trans (hperm.cons z), hkey⟩

theorem moveBefore?_perm {k before : γ} {xs ys : List α}
    (h : moveBefore? key k before xs = some ys) : ys.Perm xs := by
  unfold moveBefore? at h
  split at h
  · cases h
  · split at h
    · obtain ⟨⟨x, rest⟩, hx, rfl⟩ := Option.map_eq_some_iff.mp h
      exact (insertBefore_perm key x (some before) rest).trans (takeFirst?_perm hx).1
    · cases h

theorem moveBefore?_of_not_contains {k before : γ} {xs : List α} (h : contains key k xs = false) :
    moveBefore? key k before xs = none := by
  cases hm : moveBefore? key k before xs with
  | none => rfl
  | some ys =>
    unfold moveBefore? at hm
    split at hm
    · cases hm
    · split at hm
      · obtain ⟨⟨x, rest⟩, hx, -⟩ := Option.map_eq_some_iff.mp hm
        obtain ⟨hperm, hkey⟩ := takeFirst?_perm hx
        rw [contains_iff.mpr ⟨x, hperm.subset List.mem_cons_self, hkey⟩] at h
        cases h
      · cases hm

/-- Moving an item before a sibling keeps the list up to order, also where nothing is moved. -/
theorem moveBefore?_getD_perm (key : α → γ) (k before : γ) (xs : List α) :
    ((moveBefore? key k before xs).getD xs).Perm xs := by
  cases h : moveBefore? key k before xs with
  | none => exact .refl _
  | some ys => exact moveBefore?_perm h

section Agreement

variable {R : α → β → Prop} {xs : List α} {ys : List β} {x : α} {y : β}

theorem contains_congr (hR : ∀ x y, R x y → key x = key' y) (h : List.Forall₂ R xs ys) (k : γ) :
    contains key k xs = contains key' k ys := by
  induction h with
  | nil => rfl
  | cons hxy _ ih =>
    simp only [contains, List.any_cons] at ih ⊢
    rw [ih, hR _ _ hxy]

theorem insertBefore_congr (hR : ∀ x y, R x y → key x = key' y) (hxy : R x y)
    (h : List.Forall₂ R xs ys) (before : Option γ) :
    List.Forall₂ R (insertBefore key x before xs) (insertBefore key' y before ys) := by
  cases before with
  | none => exact List.rel_append h (.cons hxy .nil)
  | some k =>
    induction h with
    | nil => exact .cons hxy .nil
    | @cons z w zs ws hzw hrest ih =>
      by_cases hk : key' w = k
      · simpa [insertBefore, hR _ _ hzw, hk] using ⟨hxy, hzw, hrest⟩
      · simp only [insertBefore, ne_eq, hR _ _ hzw, hk, not_false_eq_true, decide_true,
          List.takeWhile_cons_of_pos, List.dropWhile_cons_of_pos, List.cons_append]
        exact .cons hzw ih

theorem takeFirst?_congr (hR : ∀ x y, R x y → key x = key' y) (h : List.Forall₂ R xs ys) (k : γ) :
    (takeFirst? key k xs = none ∧ takeFirst? key' k ys = none) ∨
    ∃ x xs' y ys', takeFirst? key k xs = some (x, xs') ∧ takeFirst? key' k ys = some (y, ys') ∧
      R x y ∧ List.Forall₂ R xs' ys' := by
  induction h with
  | nil => exact .inl ⟨rfl, rfl⟩
  | @cons z w zs ws hzw hrest ih =>
    rw [takeFirst?, takeFirst?, hR _ _ hzw]
    by_cases hk : key' w = k
    · rw [if_pos hk, if_pos hk]
      exact .inr ⟨z, zs, w, ws, rfl, rfl, hzw, hrest⟩
    · rw [if_neg hk, if_neg hk]
      rcases ih with ⟨hx, hy⟩ | ⟨x, xs', y, ys', hx, hy, hxy, htail⟩
      · exact .inl (by simp [hx, hy])
      · exact .inr ⟨x, z :: xs', y, w :: ys', by simp [hx], by simp [hy], hxy, .cons hzw htail⟩

theorem moveBefore?_congr (hR : ∀ x y, R x y → key x = key' y) (h : List.Forall₂ R xs ys)
    (k before : γ) :
    List.Forall₂ R ((moveBefore? key k before xs).getD xs)
      ((moveBefore? key' k before ys).getD ys) := by
  unfold moveBefore?
  rw [contains_congr hR h before]
  split
  · exact h
  · split
    · rcases takeFirst?_congr hR h k with ⟨hx, hy⟩ | ⟨x, xs', y, ys', hx, hy, hxy, htail⟩
      · simpa [hx, hy] using h
      · simpa [hx, hy] using insertBefore_congr hR hxy htail (some before)
    · exact h

end Agreement

end SceneReel.Siblings

namespace SceneReel

variable {α γ : Type} {p : α → Bool} {f : α → α × γ} {xs ys : List α} {c : γ}

theorem updateFirst?_eq_some (h : updateFirst? p f xs = some (ys, c)) :
    ∃ pre x post, xs = pre ++ x :: post ∧ p x = true ∧ (∀ y ∈ pre, p y = false) ∧
      ys = pre ++ (f x).1 :: post ∧ c = (f x).2 := by
  induction xs generalizing ys with
  | nil => cases h
  | cons z zs ih =>
    rw [updateFirst?] at h
    split at h
    · cases h
      exact ⟨[], z, zs, rfl, ‹_›, by simp, rfl, rfl⟩
    · obtain ⟨⟨ws, d⟩, hw, he⟩ := Option.map_eq_some_iff.mp h
      cases he
      obtain ⟨pre, x, post, rfl, hx, hpre, rfl, rfl⟩ := ih hw
      refine ⟨z :: pre, x, post, rfl, hx, ?_, rfl, rfl⟩
      intro y hy
      rcases List.mem_cons.mp hy with rfl | hy
      · exact Bool.eq_false_iff.mpr ‹_›
      · exact hpre y hy

theorem updateFirst?_append_cons {pre post : List α} {x : α} (hpre : ∀ y ∈ pre, p y = false)
    (hx : p x = true) (f : α → α × γ) :
    updateFirst? p f (pre ++ x :: post) = some (pre ++ (f x).1 :: post, (f x).2) := by
  induction pre with
  | nil => simp [updateFirst?, hx]
  | cons y pre ih =>
    have hy := hpre y List.mem_cons_self
    rw [List.cons_append, updateFirst?, hy, ih fun z hz => hpre z (List.mem_cons_of_mem y hz)]
    rfl

theorem updateFirst?_eq_none_iff : updateFirst? p f xs = none ↔ ∀ x ∈ xs, p x = false := by
  induction xs with
  | nil => simp [updateFirst?]
  | cons z zs ih =>
    rw [updateFirst?]
    by_cases hz : p z = true
    · simp [hz]
    · simp [hz, ih]

end SceneReel
