import SceneReel.Animator.Playback
import SceneReel.Proofs.Display.Handles
import SceneReel.Proofs.Display.Order

/-!
What a command does to a list of siblings, for any kind of item that has an id and can be moved and
shown. The children of a node are one such list; a list of less, such as their ids, follows suit.
-/
namespace SceneReel

open SceneReel.Geometry

/-- What commands need of an item among siblings. -/
structure Staging (α : Type) where
  id : α → ObjectId
  move : Matrix → α → α
  setVisible : Bool → α → α

namespace Command

variable {α β : Type}

/-- The siblings after a command, `new` being the item that a placement adds. -/
def arrange (v : Staging α) (new : CharId → ObjectId → Matrix → α) :
    Command → List α → List α
  | .place char object before matrix, xs =>
    Siblings.insertBefore v.id (new char object matrix) before xs
  | .move object matrix, xs =>
    ((updateFirst? (v.id · = object) (fun x => (v.move matrix x, ())) xs).map Prod.fst).getD xs
  | .remove object, xs => xs.filter (v.id · ≠ object)
  | .reorder _ none, xs => xs
  | .reorder object (some before), xs => (Siblings.moveBefore? v.id object before xs).getD xs
  | .setVisible object visible, xs =>
    xs.map fun x => if v.id x = object then v.setVisible visible x else x

/-- A relation between items that commands respect. -/
structure Respects (R : α → β → Prop) (v : Staging α) (w : Staging β) : Prop where
  id : ∀ x y, R x y → v.id x = w.id y
  move : ∀ m x y, R x y → R (v.move m x) (w.move m y)
  setVisible : ∀ b x y, R x y → R (v.setVisible b x) (w.setVisible b y)

variable {R : α → β → Prop} {v : Staging α} {w : Staging β} {xs : List α} {ys : List β}

private theorem updateFirst?_congr (hR : Respects R v w) (h : List.Forall₂ R xs ys)
    (object : ObjectId) (m : Matrix) :
    List.Forall₂ R
      (((updateFirst? (v.id · = object) (fun x => (v.move m x, ())) xs).map Prod.fst).getD xs)
      (((updateFirst? (w.id · = object) (fun y => (w.move m y, ())) ys).map Prod.fst).getD ys) := by
  induction h with
  | nil => exact .nil
  | @cons x y xs ys hxy hrest ih =>
    rw [updateFirst?, updateFirst?]
    by_cases hk : w.id y = object
    · simpa [hR.id _ _ hxy, hk] using ⟨hR.move m _ _ hxy, hrest⟩
    · cases hx : updateFirst? (v.id · = object) (fun x => (v.move m x, ())) xs <;>
        cases hy : updateFirst? (w.id · = object) (fun y => (w.move m y, ())) ys <;>
        simp_all [hR.id _ _ hxy]

theorem arrange_congr (hR : Respects R v w) {new : CharId → ObjectId → Matrix → α}
    {new' : CharId → ObjectId → Matrix → β} (c : Command) (h : List.Forall₂ R xs ys)
    (hnew : ∀ char object before m, c = .place char object before m →
      R (new char object m) (new' char object m)) :
    List.Forall₂ R (c.arrange v new xs) (c.arrange w new' ys) := by
  cases c with
  | place char object before m =>
    exact Siblings.insertBefore_congr hR.id (hnew char object before m rfl) h before
  | move object m => exact updateFirst?_congr hR h object m
  | remove object =>
    refine List.rel_filter (fun {x y} hxy => ?_) h
    simp [hR.id x y hxy]
  | reorder object before =>
    cases before with
    | none => exact h
    | some before => exact Siblings.moveBefore?_congr hR.id h object before
  | setVisible object visible =>
    refine List.rel_map (fun {x y} hxy => ?_) h
    simp only [hR.id x y hxy]
    split
    · exact hR.setVisible visible x y hxy
    · exact hxy

/-- A view of the items that commands respect may be taken before or after. -/
theorem map_arrange {f : α → β} (hf : Respects (fun x y => f x = y) v w)
    {new : CharId → ObjectId → Matrix → α} {new' : CharId → ObjectId → Matrix → β} (c : Command)
    (xs : List α)
    (hnew : ∀ char object before m, c = .place char object before m →
      f (new char object m) = new' char object m) :
    (c.arrange v new xs).map f = c.arrange w new' (xs.map f) := by
  rw [← List.forall₂_eq_eq_eq, List.forall₂_map_left_iff]
  exact arrange_congr hf c (by rw [← List.forall₂_map_left_iff, List.forall₂_eq_eq_eq]) hnew

def placed? : Command → Option ObjectId
  | .place _ object _ _ => some object
  | _ => none

def removed? : Command → Option ObjectId
  | .remove object => some object
  | _ => none

/-- Where items are not changed in place, only placing adds one and only removing takes one away. -/
theorem arrange_perm {new : CharId → ObjectId → Matrix → α} {c : Command}
    (hmove : ∀ m x, v.move m x = x) (hshow : ∀ b x, v.setVisible b x = x) (hp : c.placed? = none)
    (hr : c.removed? = none) : (c.arrange v new xs).Perm xs := by
  cases c with
  | place char object before m => cases hp
  | move object m =>
    rw [arrange]
    cases hu : updateFirst? (v.id · = object) (fun x => (v.move m x, ())) xs with
    | none => exact .refl xs
    | some ys =>
      obtain ⟨pre, x, post, rfl, -, -, hys, -⟩ := updateFirst?_eq_some (c := ys.2) hu
      rw [hmove] at hys
      exact hys ▸ .refl _
  | remove object => cases hr
  | reorder object before =>
    cases before with
    | none => exact .refl xs
    | some before => exact Siblings.moveBefore?_getD_perm v.id object before xs
  | setVisible object visible =>
    simp only [arrange, hshow, ite_self, List.map_id']
    exact .refl xs

/-- An item after a command was there before, and was not removed, or is placed by it. -/
theorem mem_arrange_of_view {f : α → β} (hf : Respects (fun x y => f x = y) v w)
    (hmove : ∀ m y, w.move m y = y) (hshow : ∀ b y, w.setVisible b y = y)
    {new : CharId → ObjectId → Matrix → α} {c : Command} {x : α} (hx : x ∈ c.arrange v new xs) :
    (∃ y ∈ xs, f y = f x ∧ c.removed? ≠ some (v.id x)) ∨
      ∃ char object before m, c = .place char object before m ∧ x = new char object m := by
  have hother : c.placed? = none → c.removed? = none →
      ∃ y ∈ xs, f y = f x ∧ c.removed? ≠ some (v.id x) := by
    intro hp hr
    have hview : (c.arrange v new xs).map f =
        c.arrange w (fun x y m => f (new x y m)) (xs.map f) :=
      map_arrange hf c xs fun _ _ _ _ _ => rfl
    have hperm : ((c.arrange v new xs).map f).Perm (xs.map f) := by
      rw [hview]
      exact arrange_perm hmove hshow hp hr
    obtain ⟨y, hy, hyx⟩ := List.mem_map.mp (hperm.subset (List.mem_map_of_mem hx))
    refine ⟨y, hy, hyx, ?_⟩
    rw [hr]
    simp
  cases c with
  | place char object before m =>
    rcases List.mem_cons.mp ((Siblings.insertBefore_perm v.id _ before xs).subset hx) with rfl | hx
    · exact .inr ⟨char, object, before, m, rfl, rfl⟩
    · exact .inl ⟨x, hx, rfl, by simp [removed?]⟩
  | remove object =>
    obtain ⟨hx, hne⟩ := List.mem_filter.mp hx
    refine .inl ⟨x, hx, rfl, fun he => of_decide_eq_true hne ?_⟩
    exact (Option.some.inj he).symm
  | _ => exact .inl (hother rfl rfl)

def arrangeAll (v : Staging α) (new : CharId → ObjectId → Matrix → α) (cs : List Command)
    (xs : List α) : List α :=
  cs.foldl (fun xs c => c.arrange v new xs) xs

def nodes : Staging Node where
  id := Node.id
  move m n := { n with transform := m.decompose }
  setVisible visible n := { n with visible }

/-- The children of a node as far as the arena and their siblings go. -/
def cores : Staging (ObjectId × NodeKind × List Node) where
  id := Prod.fst
  move := fun _ x => x
  setVisible := fun _ x => x

theorem respects_core : Respects (fun n x => Node.core n = x) nodes cores where
  id := fun _ _ h => congrArg Prod.fst h
  move := fun _ _ _ h => h
  setVisible := fun _ _ _ h => h

section Cores

variable {new : CharId → ObjectId → Matrix → Node} {c : Command} {cs : List Node}

/-- Commands that neither place nor remove leave the cores of the children, up to order. -/
theorem arrange_core_perm (hp : c.placed? = none) (hr : c.removed? = none) :
    ((c.arrange nodes new cs).map Node.core).Perm (cs.map Node.core) := by
  have hview : (c.arrange nodes new cs).map Node.core =
      c.arrange cores (fun x y m => (new x y m).core) (cs.map Node.core) :=
    map_arrange respects_core c cs fun _ _ _ _ _ => rfl
  rw [hview]
  exact arrange_perm (fun _ _ => rfl) (fun _ _ => rfl) hp hr

theorem mem_arrange {n : Node} (hn : n ∈ c.arrange nodes new cs) :
    (∃ m ∈ cs, m.core = n.core) ∨
      ∃ char object before m, c = .place char object before m ∧ n = new char object m := by
  rcases mem_arrange_of_view respects_core (fun _ _ => rfl) (fun _ _ => rfl) hn with
    ⟨m, hm, hcore, -⟩ | hplaced
  · exact .inl ⟨m, hm, hcore⟩
  · exact .inr hplaced

end Cores

/-- The node that a placement adds, and the run once a clip has started. -/
def enter (s : Setting) (player : Player) (owner : Handle) (char : CharId) (object : ObjectId)
    (matrix : Matrix) (run : Run) : Node × Run :=
  let fresh : Node :=
    { id := object, kind := .ofResolved char (s.resolve char), transform := matrix.decompose }
  match s.resolve char with
  | some (.timeline timeline) => spawn s player owner char timeline fresh run
  | _ => (fresh, run)

def settle (s : Setting) (player : Player) (owner : Handle) (target : Node) (run : Run) :
    Command → Run
  | .place char object _ matrix => (enter s player owner char object matrix run).2
  | .remove object => ((target.children.filter (·.id = object)).filterMap Node.animator?).foldl
      (Run.retire · .removed) run
  | _ => run

section Execution

variable (s : Setting) (player : Player) (owner : Handle) (target : Node) (run : Run)

theorem execute_remove_eq (object : ObjectId) :
    ((Command.remove object).execute s player owner target run).2 =
      ({ target with children := target.children.filter (·.id ≠ object) },
        ((target.children.filter (·.id = object)).filterMap Node.animator?).foldl
          (Run.retire · .removed) run) := by
  obtain ⟨id, kind, transform, visible, cs⟩ := target
  simp only [execute, Node.removeAll_eq]
  cases hf : cs.filter (·.id = object) with
  | nil =>
    have hkept : cs.filter (·.id ≠ object) = cs := by
      rw [List.filter_eq_self]
      exact fun c hc => by simpa using List.filter_eq_nil_iff.mp hf c hc
    rw [hkept]
    rfl
  | cons c cs => rfl

theorem execute_reorder_eq (object before : ObjectId) :
    ((Command.reorder object (some before)).execute s player owner target run).2 =
      ((target.moveBefore? object before).getD target, run) := by
  simp only [execute]
  by_cases ho : target.contains object = true
  · by_cases hb : target.contains before = true
    · simp only [ho, hb, if_true]
    · have hout : Siblings.contains Node.id before target.children = false :=
        Bool.eq_false_iff.mpr hb
      have hnone : target.moveBefore? object before = none := by
        simp [Node.moveBefore?, Siblings.moveBefore?, hout]
      simp [ho, hb, hnone]
  · have hnone : target.moveBefore? object before = none := by
      rw [Node.moveBefore?, Siblings.moveBefore?_of_not_contains (Bool.eq_false_iff.mpr ho)]
      rfl
    simp [ho, hnone]

theorem execute_setVisible_eq (object : ObjectId) (visible : Bool) :
    ((Command.setVisible object visible).execute s player owner target run).2 =
      (target.mapChildren object fun c => { c with visible }, run) := by
  simp only [execute]
  split
  · rfl
  · rw [Node.mapChildren_of_not_contains (Bool.eq_false_iff.mpr ‹_›)]

theorem execute_eq (c : Command) :
    (c.execute s player owner target run).2 =
      ({ target with
          children := c.arrange nodes (fun x y m => (enter s player owner x y m run).1)
            target.children },
        c.settle s player owner target run) := by
  obtain ⟨id, kind, transform, visible, cs⟩ := target
  cases c with
  | place char object before m =>
    cases hr : s.resolve char with
    | none => simp only [execute, arrange, settle, enter, Node.insertBefore, nodes, hr]
    | some r =>
      cases r <;> simp only [execute, arrange, settle, enter, Node.insertBefore, nodes, hr]
  | move object m =>
    have harrange : (Command.move object m).arrange nodes
        (fun x y m => (enter s player owner x y m run).1) cs =
        ((updateFirst? (·.id = object) (fun c => ({ c with transform := m.decompose }, ())) cs).map
          Prod.fst).getD cs := rfl
    simp only [execute, settle, harrange, Node.updateChild?]
    cases updateFirst? (·.id = object) (fun c : Node => ({ c with transform := m.decompose }, ()))
      cs <;> rfl
  | remove object => exact execute_remove_eq s player owner _ run object
  | reorder object before =>
    cases before with
    | none =>
      simp only [execute, settle, arrange]
      split <;> rfl
    | some before =>
      have harrange : (Command.reorder object (some before)).arrange nodes
          (fun x y m => (enter s player owner x y m run).1) cs =
          (Siblings.moveBefore? Node.id object before cs).getD cs := rfl
      rw [execute_reorder_eq]
      simp only [settle, harrange, Node.moveBefore?]
      cases Siblings.moveBefore? Node.id object before cs <;> rfl
  | setVisible object visible => exact execute_setVisible_eq s player owner _ run object visible

theorem executeAll_cons (c : Command) (cs : List Command) :
    executeAll s player owner (c :: cs) target run =
      executeAll s player owner cs
        { target with
          children := c.arrange nodes (fun x y m => (enter s player owner x y m run).1)
            target.children }
        ((c.settle s player owner target run).emit
          (.command owner c.kind c.object (c.execute s player owner target run).1)) := by
  have h := execute_eq s player owner target run c
  rw [executeAll]
  generalize c.execute s player owner target run = out at h ⊢
  obtain ⟨outcome, node, run'⟩ := out
  cases h
  rfl

variable {target} {id : ObjectId}

theorem contains_of_mem (hid : id ∈ target.childIds) : target.contains id = true :=
  Siblings.contains_iff_mem_map.mpr hid

theorem outcome_move (hid : id ∈ target.childIds) (m : Matrix) :
    ((Command.move id m).execute s player owner target run).1 = .applied := by
  simp only [execute]
  split
  · rfl
  · rename_i hnone
    obtain ⟨c, hc, hcid⟩ := List.mem_map.mp hid
    have hother := updateFirst?_eq_none_iff.mp (Option.map_eq_none_iff.mp hnone) c hc
    exact absurd hcid (of_decide_eq_false hother)

theorem outcome_remove (hid : id ∈ target.childIds) :
    ((Command.remove id).execute s player owner target run).1 = .applied := by
  simp only [execute, Node.removeAll_eq]
  cases hfound : target.children.filter (·.id = id) with
  | nil =>
    obtain ⟨c, hc, hcid⟩ := List.mem_map.mp hid
    exact absurd (decide_eq_true hcid) (List.filter_eq_nil_iff.mp hfound c hc)
  | cons c cs => rfl

theorem outcome_reorder (hid : id ∈ target.childIds) (before : Option ObjectId) :
    ((Command.reorder id before).execute s player owner target run).1 ≠ .lookupMiss := by
  simp only [execute, if_pos (contains_of_mem hid)]
  cases before with
  | none => nofun
  | some sibling =>
    dsimp only
    split <;> nofun

end Execution

end Command

end SceneReel
