/-!
Lists of siblings in z-order, the first drawn first. Siblings are found by a key that may repeat; an
operation on one of them takes the first with the key.
-/
namespace SceneReel.Siblings

variable {α β : Type} [DecidableEq β] (key : α → β)

def indexOf? (k : β) (xs : List α) : Option Nat :=
  xs.findIdx? (key · = k)

def contains (k : β) (xs : List α) : Bool :=
  xs.any (key · = k)

def extract (k : β) (xs : List α) : List α × List α :=
  xs.partition (key · = k)

/-- Puts an item before the first sibling with a key, or at the end if there is none. -/
def insertBefore (x : α) (before : Option β) (xs : List α) : List α :=
  match before with
  | none => xs ++ [x]
  | some k => xs.takeWhile (key · ≠ k) ++ x :: xs.dropWhile (key · ≠ k)

def insertionIndex (before : Option β) (xs : List α) : Nat :=
  match before with
  | none => xs.length
  | some k => (xs.takeWhile (key · ≠ k)).length

def takeFirst? (k : β) : List α → Option (α × List α)
  | [] => none
  | x :: xs => if key x = k then some (x, xs) else (takeFirst? k xs).map fun (y, ys) => (y, x :: ys)

/-- Moves the first sibling with the key `k` before the first with the key `before`, if these are two. -/
def moveBefore? (k before : β) (xs : List α) : Option (List α) :=
  if k = before then none
  else if contains key before xs then
    (takeFirst? key k xs).map fun (x, rest) => insertBefore key x (some before) rest
  else none

variable {key}

theorem contains_iff {k : β} {xs : List α} : contains key k xs = true ↔ ∃ x ∈ xs, key x = k := by
  simp [contains]

theorem extract_eq_filter (k : β) (xs : List α) :
    extract key k xs = (xs.filter (key · = k), xs.filter (key · ≠ k)) := by
  rw [extract, List.partition_eq_filter_filter]
  simp [Function.comp_def]

theorem insertBefore_of_not_contains {x : α} {k : β} {xs : List α}
    (h : contains key k xs = false) : insertBefore key x (some k) xs = xs ++ [x] := by
  induction xs with
  | nil => rfl
  | cons y ys ih =>
    obtain ⟨hy, hys⟩ : key y ≠ k ∧ contains key k ys = false := by simpa [contains] using h
    have step := congrArg (y :: ·) (ih hys)
    simpa [insertBefore, hy] using step

theorem getElem?_insertBefore (x : α) (before : Option β) (xs : List α) :
    (insertBefore key x before xs)[insertionIndex key before xs]? = some x := by
  cases before with
  | none => exact List.getElem?_concat_length
  | some k => simp [insertBefore, insertionIndex]

end SceneReel.Siblings

namespace SceneReel

def updateFirst? {α γ : Type} (p : α → Bool) (f : α → α × γ) : List α → Option (List α × γ)
  | [] => none
  | x :: xs =>
    if p x then
      let (y, c) := f x
      some (y :: xs, c)
    else (updateFirst? p f xs).map fun (ys, c) => (x :: ys, c)

end SceneReel
