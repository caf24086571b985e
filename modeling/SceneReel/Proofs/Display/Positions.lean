import Mathlib.Data.List.TakeWhile
import SceneReel.Proofs.Display.Order

/-!
The operations on siblings, position by position. An item is inserted, read or taken out at an index, which
must be one of the list: otherwise there is no result. None of the operations ever asks for another.
-/
namespace SceneReel.Siblings

variable {α β : Type} [DecidableEq β] (key : α → β)

def insertAt? (xs : List α) (i : Nat) (x : α) : Option (List α) :=
  if i ≤ xs.length then some (xs.insertIdx i x) else none

def removeAt? (xs : List α) (i : Nat) : Option (α × List α) :=
  xs[i]?.map fun x => (x, xs.eraseIdx i)

/-- Puts an item at the position of the first sibling with a key, or at the end; also gives the position. -/
def insertBefore? (x : α) (before : Option β) (xs : List α) : Option (Nat × List α) :=
  let i := (before.bind fun k => indexOf? key k xs).getD xs.length
  (insertAt? xs i x).map fun ys => (i, ys)

theorem length_removeAt {xs rest : List α} {i : Nat} {x : α}
    (h : removeAt? xs i = some (x, rest)) : rest.length + 1 = xs.length := by
  obtain ⟨y, hy, he⟩ := Option.map_eq_some_iff.mp h
  cases he
  have hi := (List.getElem?_eq_some_iff.mp hy).1
  rw [List.length_eraseIdx_of_lt hi]
  omega

/-- Takes out the items with a key one by one, from a position on; gives them, and the list without. -/
def removeFrom? (k : β) (i : Nat) (xs : List α) : Option (List α × List α) :=
  if i < xs.length then
    match xs[i]? with
    | none => none
    | some x =>
      if key x = k then
        match _h : removeAt? xs i with
        | none => none
        | some (y, rest) => (removeFrom? k i rest).map fun (removed, kept) => (y :: removed, kept)
      else removeFrom? k (i + 1) xs
  else some ([], xs)
termination_by xs.length - i
decreasing_by
  · have := length_removeAt _h
    omega
  · omega

/-- Takes out the first item with a key and puts it where the first with another key is then. -/
def relocate? (k before : β) (xs : List α) : Option (Option (List α)) :=
  if k = before then some none
  else
    match indexOf? key k xs, indexOf? key before xs with
    | some i, some _ =>
      (removeAt? xs i).bind fun (x, rest) =>
        (insertAt? rest ((indexOf? key before rest).getD rest.length) x).map some
    | _, _ => some none

variable {key}

theorem indexOf?_eq_some {k : β} {xs : List α} {i : Nat} (h : indexOf? key k xs = some i) :
    ∃ pre x post, xs = pre ++ x :: post ∧ pre.length = i ∧ key x = k ∧ ∀ y ∈ pre, key y ≠ k := by
  obtain ⟨hi, hx, hbefore⟩ := List.findIdx?_eq_some_iff_getElem.mp h
  refine ⟨xs.take i, xs[i], xs.drop (i + 1), ?_, ?_, of_decide_eq_true hx, fun y hy => ?_⟩
  · rw [List.getElem_cons_drop, List.take_append_drop]
  · rw [List.length_take]
    omega
  · obtain ⟨j, hj, rfl⟩ := List.mem_take_iff_getElem.mp hy
    simpa using hbefore j (by omega)

theorem indexOf?_eq_none_iff {k : β} {xs : List α} :
    indexOf? key k xs = none ↔ contains key k xs = false := by
  simp [indexOf?, contains]

theorem span_of_first {k : β} {pre post : List α} {x : α} (hx : key x = k)
    (hpre : ∀ y ∈ pre, key y ≠ k) :
    (pre ++ x :: post).takeWhile (key · ≠ k) = pre ∧
      (pre ++ x :: post).dropWhile (key · ≠ k) = x :: post := by
  have htrue : ∀ y ∈ pre, decide (key y ≠ k) = true := fun y hy => decide_eq_true (hpre y hy)
  rw [List.takeWhile_append_of_pos htrue, List.dropWhile_append_of_pos htrue]
  simp [hx]

theorem insertionIndex_eq (before : Option β) (xs : List α) :
    insertionIndex key before xs = (before.bind fun k => indexOf? key k xs).getD xs.length := by
  cases before with
  | none => rfl
  | some k =>
    cases hi : indexOf? key k xs with
    | none =>
      have hall : ∀ y ∈ xs, decide (key y ≠ k) = true := by
        simpa [contains] using indexOf?_eq_none_iff.mp hi
      rw [insertionIndex, List.takeWhile_eq_self_iff.mpr hall, Option.bind_some, hi,
        Option.getD_none]
    | some i =>
      obtain ⟨pre, x, post, rfl, rfl, hx, hpre⟩ := indexOf?_eq_some hi
      rw [insertionIndex, (span_of_first hx hpre).1, Option.bind_some, hi, Option.getD_some]

theorem insertIdx_append (pre post : List α) (x : α) :
    (pre ++ post).insertIdx pre.length x = pre ++ x :: post := by
  induction pre with
  | nil => rfl
  | cons y pre ih => rw [List.cons_append, List.length_cons, List.insertIdx_succ_cons, ih]; rfl

/-- The position of an item before a sibling is one of the list or its end. -/
theorem insertAt?_insertionIndex (key : α → β) (x : α) (before : Option β) (xs : List α) :
    insertAt? xs (insertionIndex key before xs) x = some (insertBefore key x before xs) := by
  cases before with
  | none => simp [insertAt?, insertionIndex, insertBefore]
  | some k =>
    have hsplit := List.takeWhile_append_dropWhile (p := (key · ≠ k)) (l := xs)
    rw [insertionIndex, insertBefore]
    generalize xs.takeWhile (key · ≠ k) = pre at hsplit ⊢
    generalize xs.dropWhile (key · ≠ k) = post at hsplit ⊢
    subst hsplit
    rw [insertAt?, if_pos (by simp), insertIdx_append]

theorem insertBefore?_eq (x : α) (before : Option β) (xs : List α) :
    insertBefore? key x before xs =
      some (insertionIndex key before xs, insertBefore key x before xs) := by
  have hinsert := insertAt?_insertionIndex key x before xs
  rw [insertionIndex_eq] at hinsert ⊢
  rw [insertBefore?, hinsert]
  rfl

theorem modify_append (pre : List α) (x : α) (post : List α) (f : α → α) :
    (pre ++ x :: post).modify pre.length f = pre ++ f x :: post := by
  induction pre with
  | nil => rfl
  | cons y pre ih => rw [List.cons_append, List.length_cons, List.modify_succ_cons, ih]; rfl

/-- An item that takes the place of one that was put before a sibling might have been put there. -/
theorem modify_insertBefore (x y : α) (before : Option β) (xs : List α) :
    (insertBefore key x before xs).modify (insertionIndex key before xs) (fun _ => y) =
      insertBefore key y before xs := by
  cases before with
  | none => exact modify_append xs x [] _
  | some k => exact modify_append _ x _ _

theorem removeAt?_append (pre : List α) (x : α) (post : List α) :
    removeAt? (pre ++ x :: post) pre.length = some (x, pre ++ post) := by
  simp [removeAt?, List.eraseIdx_append_of_length_le]

theorem removeFrom?_append (k : β) (pre xs : List α) :
    removeFrom? key k pre.length (pre ++ xs) =
      some (xs.filter (key · = k), pre ++ xs.filter (key · ≠ k)) := by
  induction xs generalizing pre with
  | nil =>
    rw [removeFrom?]
    simp
  | cons x xs ih =>
    have hlength : pre.length < (pre ++ x :: xs).length := by simp
    have hread : (pre ++ x :: xs)[pre.length]? = some x := by simp
    rw [removeFrom?, if_pos hlength, hread]
    dsimp only
    by_cases hx : key x = k
    · rw [if_pos hx]
      split
      · rename_i hnone
        rw [removeAt?_append] at hnone
        cases hnone
      · rename_i y rest hsome
        rw [removeAt?_append] at hsome
        cases hsome
        rw [ih pre]
        simp [hx]
    · rw [if_neg hx]
      have hnext := ih (pre ++ [x])
      simp only [List.length_append, List.length_singleton, List.append_assoc,
        List.singleton_append] at hnext
      rw [hnext]
      simp [hx]

theorem removeFrom?_eq (k : β) (xs : List α) :
    removeFrom? key k 0 xs = some (extract key k xs) := by
  rw [extract_eq_filter]
  exact removeFrom?_append k [] xs

theorem takeFirst?_append {k : β} {pre post : List α} {x : α} (hx : key x = k)
    (hpre : ∀ y ∈ pre, key y ≠ k) :
    takeFirst? key k (pre ++ x :: post) = some (x, pre ++ post) := by
  induction pre with
  | nil => rw [List.nil_append, takeFirst?, if_pos hx]; rfl
  | cons y pre ih =>
    rw [List.cons_append, takeFirst?, if_neg (hpre y List.mem_cons_self),
      ih fun z hz => hpre z (List.mem_cons_of_mem _ hz)]
    rfl

theorem relocate?_eq (k before : β) (xs : List α) :
    relocate? key k before xs = some (moveBefore? key k before xs) := by
  unfold relocate?
  by_cases hk : k = before
  · rw [if_pos hk, moveBefore?, if_pos hk]
  rw [if_neg hk]
  cases hi : indexOf? key k xs with
  | none => rw [moveBefore?_of_not_contains (indexOf?_eq_none_iff.mp hi)]
  | some i =>
    cases hj : indexOf? key before xs with
    | none =>
      have hout := indexOf?_eq_none_iff.mp hj
      rw [moveBefore?, if_neg hk, hout]
      rfl
    | some j =>
      have hin : contains key before xs = true := by
        cases hb : contains key before xs with
        | true => rfl
        | false =>
          rw [indexOf?_eq_none_iff.mpr hb] at hj
          cases hj
      obtain ⟨pre, x, post, rfl, rfl, hx, hpre⟩ := indexOf?_eq_some hi
      have hinsert := insertAt?_insertionIndex key x (some before) (pre ++ post)
      rw [insertionIndex_eq, Option.bind_some] at hinsert
      rw [moveBefore?, if_neg hk, if_pos hin, takeFirst?_append hx hpre]
      dsimp only
      rw [removeAt?_append, Option.bind_some, hinsert]
      rfl

end SceneReel.Siblings
