import Mathlib.Data.List.Forall2

/-!
Computations that may fail: what it takes for one made of others to succeed, and where it fails. A list is
treated item by item, up to the first one that fails.
-/
namespace SceneReel

/-- Items can be related to others one by one just if each of them can. -/
theorem exists_forall₂_iff {α β : Type} {R : α → β → Prop} {xs : List α} :
    (∃ ys, List.Forall₂ R xs ys) ↔ ∀ x ∈ xs, ∃ y, R x y := by
  induction xs with
  | nil => exact ⟨fun _ => by simp, fun _ => ⟨[], .nil⟩⟩
  | cons x xs ih =>
    simp only [List.forall₂_cons_left_iff, List.forall_mem_cons, ← ih]
    constructor
    · rintro ⟨_, y, ys, hxy, hys, -⟩
      exact ⟨⟨y, hxy⟩, ys, hys⟩
    · rintro ⟨⟨y, hxy⟩, ys, hys⟩
      exact ⟨_, y, ys, hxy, hys, rfl⟩

section Outcomes

variable {ε ε' α β : Type} {r : Except ε α} {e : ε}

theorem mapError_eq_ok_iff {g : ε → ε'} {a : α} : r.mapError g = .ok a ↔ r = .ok a := by
  cases r <;> simp [Except.mapError]

theorem mapError_eq_error_iff {g : ε → ε'} {e' : ε'} :
    r.mapError g = .error e' ↔ ∃ e, r = .error e ∧ g e = e' := by
  cases r <;> simp [Except.mapError]

theorem map_eq_ok_iff {f : α → β} {b : β} : r.map f = .ok b ↔ ∃ a, r = .ok a ∧ f a = b := by
  cases r <;> simp [Except.map]

theorem map_eq_error_iff {f : α → β} : r.map f = .error e ↔ r = .error e := by
  cases r <;> simp [Except.map]

/-- What succeeds has a first part that does, and a rest that does with what this gives. -/
theorem exists_of_bind_eq_ok {f : α → Except ε β} {b : β} (h : r >>= f = .ok b) :
    ∃ a, r = .ok a ∧ f a = .ok b := by
  cases r with
  | error e => cases h
  | ok a => exact ⟨a, rfl, h⟩

/-- The error of a computation, if it fails. -/
def error? : Except ε α → Option ε
  | .ok _ => none
  | .error e => some e

theorem error?_eq_none_iff : error? r = none ↔ ∃ a, r = .ok a := by
  cases r <;> simp [error?]

theorem error?_eq_some_iff : error? r = some e ↔ r = .error e := by
  cases r <;> simp [error?]

/-- What comes first fails first, where the rest fails alike whatever it is given. -/
theorem error?_bind {f : α → Except ε β} {o : Option ε} (hf : ∀ a, error? (f a) = o) :
    error? (r >>= f) = match error? r with
      | some e => some e
      | none => o := by
  cases r with
  | error e => rfl
  | ok a => exact hf a

end Outcomes

section Each

variable {ε α β : Type} {R : α → β → Prop} {f : Nat → α → Except ε β} {xs : List α}

/-- Treats items in order, each at its index, up to the first that fails. -/
def tryEach (f : Nat → α → Except ε β) (index : Nat) : List α → Except ε (List β)
  | [] => .ok []
  | x :: xs =>
    match f index x with
    | .error e => .error e
    | .ok y => (tryEach f (index + 1) xs).map (y :: ·)

theorem tryEach_eq_ok_iff (index : Nat) (hf : ∀ index x y, f index x = .ok y ↔ R x y) {ys : List β} :
    tryEach f index xs = .ok ys ↔ List.Forall₂ R xs ys := by
  induction xs generalizing index ys with
  | nil =>
    rw [tryEach, List.forall₂_nil_left_iff, Except.ok.injEq]
    exact eq_comm
  | cons x xs ih =>
    rw [tryEach, List.forall₂_cons_left_iff]
    cases hx : f index x with
    | error e =>
      refine ⟨nofun, fun ⟨y, _, hy, _⟩ => ?_⟩
      rw [(hf index x y).mpr hy] at hx
      cases hx
    | ok y =>
      have hxy := (hf index x y).mp hx
      constructor
      · intro h
        obtain ⟨zs, hzs, rfl⟩ := map_eq_ok_iff.mp h
        exact ⟨y, zs, hxy, (ih _).mp hzs, rfl⟩
      · rintro ⟨z, zs, hz, hzs, rfl⟩
        have hyz : (.ok y : Except ε β) = .ok z := hx.symm.trans ((hf index x z).mpr hz)
        cases hyz
        exact map_eq_ok_iff.mpr ⟨zs, (ih _).mpr hzs, rfl⟩

theorem tryEach_eq_error_iff (hf : ∀ index x y, f index x = .ok y ↔ R x y) {index : Nat} {e : ε} :
    tryEach f index xs = .error e ↔ ∃ before x after, xs = before ++ x :: after ∧
      (∀ z ∈ before, ∃ y, R z y) ∧ f (index + before.length) x = .error e := by
  induction xs generalizing index with
  | nil => simp [tryEach]
  | cons x xs ih =>
    rw [tryEach]
    cases hx : f index x with
    | error e' =>
      constructor
      · intro h
        cases h
        exact ⟨[], x, xs, rfl, by simp, hx⟩
      · rintro ⟨before, z, after, hxs, hbefore, he⟩
        cases before with
        | nil =>
          obtain ⟨rfl, rfl⟩ := List.cons.inj hxs
          cases hx.symm.trans he
          rfl
        | cons w before =>
          obtain ⟨rfl, -⟩ := List.cons.inj hxs
          obtain ⟨y, hy⟩ := hbefore x List.mem_cons_self
          rw [(hf index x y).mpr hy] at hx
          cases hx
    | ok y =>
      have hxy := (hf index x y).mp hx
      dsimp only
      rw [map_eq_error_iff, ih]
      constructor
      · rintro ⟨before, z, after, rfl, hbefore, he⟩
        refine ⟨x :: before, z, after, rfl, List.forall_mem_cons.mpr ⟨⟨y, hxy⟩, hbefore⟩, ?_⟩
        rwa [List.length_cons, Nat.add_comm before.length, ← Nat.add_assoc]
      · rintro ⟨before, z, after, hxs, hbefore, he⟩
        cases before with
        | nil =>
          obtain ⟨rfl, rfl⟩ := List.cons.inj hxs
          rw [List.length_nil, Nat.add_zero, hx] at he
          cases he
        | cons w before =>
          obtain ⟨rfl, rfl⟩ := List.cons.inj hxs
          refine ⟨before, z, after, rfl, (List.forall_mem_cons.mp hbefore).2, ?_⟩
          rwa [List.length_cons, Nat.add_comm before.length, ← Nat.add_assoc] at he

end Each

end SceneReel
