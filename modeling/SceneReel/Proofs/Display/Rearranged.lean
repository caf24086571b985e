import Mathlib.Data.List.Nodup
import SceneReel.Display.Node
import SceneReel.Proofs.Display.Positions

/-!
How the children of a node stand after some are removed, one is inserted or one is moved. Ids may repeat: all
children with an id are removed, and otherwise the first one counts.
-/
namespace SceneReel

namespace Siblings

variable {α β : Type} [DecidableEq β] {key : α → β}

/-- The first item with a key, between the items before it and those behind it. -/
structure First (key : α → β) (k : β) (xs pre : List α) (x : α) (post : List α) : Prop where
  split : xs = pre ++ x :: post
  key_eq : key x = k
  others : ∀ y ∈ pre, key y ≠ k

theorem exists_first {k : β} {xs : List α} (h : k ∈ xs.map key) :
    ∃ pre x post, First key k xs pre x post := by
  cases hi : indexOf? key k xs with
  | none =>
    rw [← contains_iff_mem_map, indexOf?_eq_none_iff.mp hi] at h
    cases h
  | some i =>
    obtain ⟨pre, x, post, hxs, -, hx, hpre⟩ := indexOf?_eq_some hi
    exact ⟨pre, x, post, hxs, hx, hpre⟩

namespace First

variable {k : β} {xs pre post : List α} {x : α}

theorem insertionIndex (h : First key k xs pre x post) : insertionIndex key (some k) xs = pre.length := by
  rw [h.split, Siblings.insertionIndex, (span_of_first h.key_eq h.others).1]

theorem insertBefore (h : First key k xs pre x post) (y : α) :
    insertBefore key y (some k) xs = pre ++ y :: x :: post := by
  rw [h.split, Siblings.insertBefore]
  obtain ⟨hbefore, hfrom⟩ := span_of_first h.key_eq h.others
  rw [hbefore, hfrom]

theorem takeFirst? (h : First key k xs pre x post) : takeFirst? key k xs = some (x, pre ++ post) := by
  rw [h.split]
  exact takeFirst?_append h.key_eq h.others

omit [DecidableEq β] in
theorem mem_map_rest (h : First key k xs pre x post) {k' : β} (hne : k' ≠ k) (hk : k' ∈ xs.map key) :
    k' ∈ (pre ++ post).map key := by
  obtain ⟨y, hy, rfl⟩ := List.mem_map.mp hk
  rw [h.split, List.mem_append, List.mem_cons] at hy
  have hyx : y ≠ x := fun he => hne (he ▸ h.key_eq)
  refine List.mem_map_of_mem (List.mem_append.mpr ?_)
  tauto

omit [DecidableEq β] in
theorem mem_of_rest (h : First key k xs pre x post) {k' : β} (hk : k' ∈ (pre ++ post).map key) :
    k' ∈ xs.map key := by
  rw [h.split, List.map_append, List.map_cons, List.mem_append, List.mem_cons]
  rw [List.map_append, List.mem_append] at hk
  tauto

omit [DecidableEq β] in
theorem mem_map (h : First key k xs pre x post) : k ∈ xs.map key := by
  rw [h.split, ← h.key_eq]
  exact List.mem_map_of_mem (List.mem_append_right _ List.mem_cons_self)

omit [DecidableEq β] in
/-- Where no key repeats, the rest does not have that of the item. -/
theorem not_mem_rest (h : First key k xs pre x post) (hnodup : (xs.map key).Nodup) :
    k ∉ (pre ++ post).map key := by
  rw [h.split, List.map_append, List.map_cons, List.nodup_middle, h.key_eq, List.nodup_cons,
    ← List.map_append] at hnodup
  exact hnodup.1

end First

/-- An item is moved just if it and its new neighbour are there and are two; it then stands directly
before that. -/
theorem moveBefore?_eq_some_iff {k before : β} {xs ys : List α} :
    moveBefore? key k before xs = some ys ↔ k ≠ before ∧ ∃ pre x post below y above,
      First key k xs pre x post ∧ First key before (pre ++ post) below y above ∧
      ys = below ++ x :: y :: above := by
  unfold moveBefore?
  by_cases hne : k = before
  · simp [hne]
  rw [if_neg hne]
  by_cases hbefore : contains key before xs = true
  · rw [if_pos hbefore]
    constructor
    · intro h
      obtain ⟨⟨x, rest⟩, htake, rfl⟩ := Option.map_eq_some_iff.mp h
      obtain ⟨hperm, hx⟩ := takeFirst?_perm htake
      have hk : k ∈ xs.map key := hx ▸ List.mem_map_of_mem (hperm.subset List.mem_cons_self)
      obtain ⟨pre, z, post, hfirst⟩ := exists_first hk
      obtain ⟨rfl, rfl⟩ := Prod.mk.inj (Option.some.inj (htake.symm.trans hfirst.takeFirst?))
      obtain ⟨below, y, above, hsecond⟩ :=
        exists_first (hfirst.mem_map_rest (Ne.symm hne) (contains_iff_mem_map.mp hbefore))
      exact ⟨hne, pre, x, post, below, y, above, hfirst, hsecond, hsecond.insertBefore x⟩
    · rintro ⟨-, pre, x, post, below, y, above, hfirst, hsecond, rfl⟩
      rw [hfirst.takeFirst?, Option.map_some]
      exact congrArg some (hsecond.insertBefore x)
  · rw [if_neg hbefore]
    refine ⟨nofun, fun ⟨_, pre, x, post, below, y, above, hfirst, hsecond, _⟩ => absurd ?_ hbefore⟩
    exact contains_iff_mem_map.mpr (hfirst.mem_of_rest hsecond.mem_map)

theorem isSome_moveBefore?_iff {k before : β} {xs : List α} :
    (moveBefore? key k before xs).isSome = true ↔ k ≠ before ∧ k ∈ xs.map key ∧ before ∈ xs.map key := by
  rw [Option.isSome_iff_exists]
  constructor
  · rintro ⟨ys, h⟩
    obtain ⟨hne, pre, x, post, below, y, above, hfirst, hsecond, -⟩ := moveBefore?_eq_some_iff.mp h
    exact ⟨hne, hfirst.mem_map, hfirst.mem_of_rest hsecond.mem_map⟩
  · rintro ⟨hne, hk, hbefore⟩
    obtain ⟨pre, x, post, hfirst⟩ := exists_first hk
    obtain ⟨below, y, above, hsecond⟩ := exists_first (hfirst.mem_map_rest (Ne.symm hne) hbefore)
    exact ⟨_, moveBefore?_eq_some_iff.mpr ⟨hne, pre, x, post, below, y, above, hfirst, hsecond, rfl⟩⟩

/-- Where no key repeats, an item that was moved is there already for the same move. -/
theorem moveBefore?_again {k before : β} {xs ys : List α} (hnodup : (xs.map key).Nodup)
    (h : moveBefore? key k before xs = some ys) : moveBefore? key k before ys = some ys := by
  obtain ⟨hne, pre, x, post, below, y, above, hfirst, hsecond, rfl⟩ := moveBefore?_eq_some_iff.mp h
  have hbelow : ∀ z ∈ below, key z ≠ k := by
    intro z hz he
    refine hfirst.not_mem_rest hnodup (he ▸ List.mem_map_of_mem ?_)
    rw [hsecond.split]
    exact List.mem_append_left _ hz
  exact moveBefore?_eq_some_iff.mpr ⟨hne, below, x, y :: above, below, y, above,
    ⟨rfl, hfirst.key_eq, hbelow⟩, ⟨rfl, hsecond.key_eq, hsecond.others⟩, rfl⟩

end Siblings

namespace Node

open Siblings (First)

variable {n : Node} {id before : ObjectId}

/-- The node after a child is moved before a sibling, or as it is where nothing is to be moved. -/
def moved (n : Node) (id before : ObjectId) : Node :=
  (n.moveBefore? id before).getD n

theorem exists_insertBefore_eq (n child : Node) (before : Option ObjectId) :
    ∃ below above, n.children = below ++ above ∧
      n.insertBefore child before = (below.length, { n with children := below ++ child :: above }) ∧
      ((∃ k x rest, before = some k ∧ above = x :: rest ∧ First Node.id k n.children below x rest) ∨
        above = [] ∧ ∀ k, before = some k → k ∉ n.childIds) := by
  cases before with
  | none => exact ⟨n.children, [], (List.append_nil _).symm, rfl, .inr ⟨rfl, nofun⟩⟩
  | some k =>
    by_cases hk : k ∈ n.childIds
    · obtain ⟨below, x, rest, hfirst⟩ := Siblings.exists_first hk
      refine ⟨below, x :: rest, hfirst.split, ?_, .inl ⟨k, x, rest, rfl, rfl, hfirst⟩⟩
      rw [insertBefore, hfirst.insertionIndex, hfirst.insertBefore]
    · have hnot : Siblings.contains Node.id k n.children = false :=
        Bool.eq_false_iff.mpr fun h => hk (Siblings.contains_iff_mem_map.mp h)
      refine ⟨n.children, [], (List.append_nil _).symm, ?_, .inr ⟨rfl, ?_⟩⟩
      · rw [insertBefore, Siblings.insertBefore_of_not_contains hnot, Siblings.insertionIndex_eq,
          Option.bind_some, Siblings.indexOf?_eq_none_iff.mpr hnot, Option.getD_none]
      · intro k' he
        exact Option.some.inj he ▸ hk

theorem isSome_moveBefore?_iff : (n.moveBefore? id before).isSome = true ↔
    id ≠ before ∧ id ∈ n.childIds ∧ before ∈ n.childIds := by
  rw [moveBefore?, Option.isSome_map, Siblings.isSome_moveBefore?_iff]
  rfl

theorem exists_moved_eq (h : (n.moveBefore? id before).isSome = true) :
    ∃ pre x post below y above, First Node.id id n.children pre x post ∧
      First Node.id before (pre ++ post) below y above ∧
      n.moved id before = { n with children := below ++ x :: y :: above } := by
  obtain ⟨m, hm⟩ := Option.isSome_iff_exists.mp h
  obtain ⟨cs, hcs, rfl⟩ := Option.map_eq_some_iff.mp hm
  obtain ⟨-, pre, x, post, below, y, above, hfirst, hsecond, rfl⟩ :=
    Siblings.moveBefore?_eq_some_iff.mp hcs
  exact ⟨pre, x, post, below, y, above, hfirst, hsecond, by rw [moved, hm, Option.getD_some]⟩

theorem moved_of_isSome_eq_false (h : (n.moveBefore? id before).isSome = false) :
    n.moved id before = n := by
  rw [moved, Option.not_isSome_iff_eq_none.mp (Bool.eq_false_iff.mp h), Option.getD_none]

theorem moveBefore?_moved (hnodup : n.childIds.Nodup) (id before : ObjectId) :
    (n.moved id before).moveBefore? id before = n.moveBefore? id before := by
  cases hm : n.moveBefore? id before with
  | none => rw [moved, hm, Option.getD_none, hm]
  | some m =>
    obtain ⟨cs, hcs, rfl⟩ := Option.map_eq_some_iff.mp hm
    rw [moved, hm, Option.getD_some, moveBefore?, Siblings.moveBefore?_again hnodup hcs]
    rfl

theorem moved_moved (hnodup : n.childIds.Nodup) (id before : ObjectId) :
    (n.moved id before).moved id before = n.moved id before := by
  have hstep : (n.moved id before).moved id before =
      ((n.moved id before).moveBefore? id before).getD (n.moved id before) := rfl
  rw [hstep, moveBefore?_moved hnodup, moved]
  cases n.moveBefore? id before <;> rfl

/-- Children are removed, inserted and moved by id, in order, and the loops that work by position never
miss one. -/
theorem children_rearranged (n : Node) :
    (∀ id, n.removeAll id =
        (n.children.filter (·.id = id), { n with children := n.children.filter (·.id ≠ id) }) ∧
      Siblings.removeFrom? Node.id id 0 n.children =
        some ((n.removeAll id).1, (n.removeAll id).2.children)) ∧
    (∀ child before, ∃ below above, n.children = below ++ above ∧
      n.insertBefore child before = (below.length, { n with children := below ++ child :: above }) ∧
      (below ++ child :: above)[below.length]? = some child ∧
      ((∃ k x rest, before = some k ∧ above = x :: rest ∧ First Node.id k n.children below x rest) ∨
        above = [] ∧ ∀ k, before = some k → k ∉ n.childIds) ∧
      Siblings.insertBefore? Node.id child before n.children =
        some (below.length, below ++ child :: above)) ∧
    (∀ id before,
      ((n.moveBefore? id before).isSome = true ↔
        id ≠ before ∧ id ∈ n.childIds ∧ before ∈ n.childIds) ∧
      ((n.moveBefore? id before).isSome = true → ∃ pre x post below y above,
        First Node.id id n.children pre x post ∧ First Node.id before (pre ++ post) below y above ∧
        n.moved id before = { n with children := below ++ x :: y :: above }) ∧
      ((n.moveBefore? id before).isSome = false → n.moved id before = n) ∧
      Siblings.relocate? Node.id id before n.children =
        some ((n.moveBefore? id before).map Node.children)) ∧
    (n.childIds.Nodup → ∀ id before,
      (n.moved id before).moveBefore? id before = n.moveBefore? id before ∧
      (n.moved id before).moved id before = n.moved id before) := by
  refine ⟨fun id => ⟨removeAll_eq n id, ?_⟩, fun child before => ?_, fun id before =>
    ⟨isSome_moveBefore?_iff, exists_moved_eq, moved_of_isSome_eq_false, ?_⟩, fun hnodup id before =>
    ⟨moveBefore?_moved hnodup id before, ?_⟩⟩
  · exact Siblings.removeFrom?_eq id n.children
  · obtain ⟨below, above, hchildren, hinsert, hwhere⟩ := exists_insertBefore_eq n child before
    refine ⟨below, above, hchildren, hinsert, by simp, hwhere, ?_⟩
    rw [Siblings.insertBefore?_eq]
    exact congrArg (fun out : Nat × Node => some (out.1, out.2.children)) hinsert
  · rw [Siblings.relocate?_eq, moveBefore?, Option.map_map]
    exact congrArg some Option.map_id'.symm
  · exact moved_moved hnodup id before

def trio : Node :=
  { container ⟨0⟩ with children := [container ⟨1⟩, container ⟨2⟩, container ⟨3⟩] }

/-- The topmost child goes below the other two, and stays there for the same move. -/
theorem trio_rearranged :
    trio.childIds.Nodup ∧ (trio.moved ⟨3⟩ ⟨1⟩).childIds = [⟨3⟩, ⟨1⟩, ⟨2⟩] ∧
    (trio.moved ⟨3⟩ ⟨1⟩).moved ⟨3⟩ ⟨1⟩ = trio.moved ⟨3⟩ ⟨1⟩ := by
  have hnodup : trio.childIds.Nodup := by decide
  obtain ⟨-, -, -, hagain⟩ := children_rearranged trio
  exact ⟨hnodup, rfl, (hagain hnodup ⟨3⟩ ⟨1⟩).2⟩

end Node

end SceneReel
