import Mathlib.Data.List.Perm.Basic
import SceneReel.Display.Node

/-! The animators that the nodes of a tree carry, and the nodes of a tree by depth. -/
namespace SceneReel

namespace Node

mutual

/-- The animators of a node and of all nodes below it. -/
def carried : Node → List Handle
  | ⟨id, kind, transform, visible, children⟩ =>
    (animator? ⟨id, kind, transform, visible, children⟩).toList ++ carriedAll children

def carriedAll : List Node → List Handle
  | [] => []
  | c :: cs => carried c ++ carriedAll cs

end

/-- The animators of the nodes below a node. -/
def handles (n : Node) : List Handle :=
  carriedAll n.children

/-- The animators of some siblings themselves. -/
def hosted (cs : List Node) : List Handle :=
  cs.filterMap animator?

/-- A node is a given number of steps below another, or is the same. -/
inductive At : Node → Nat → Node → Prop
  | root {n : Node} : At n 0 n
  | child {n m c : Node} {d : Nat} (hm : At n d m) (hc : c ∈ m.children) : At n (d + 1) c

/-- A node below a child is one step further below the parent. -/
theorem At.of_child {n c m : Node} {d : Nat} (hc : c ∈ n.children) (hm : At c d m) :
    At n (d + 1) m := by
  induction hm with
  | root => exact .child .root hc
  | child _ hb ih => exact .child ih hb

theorem carried_eq (n : Node) : n.carried = n.animator?.toList ++ n.handles := by
  cases n
  rfl

theorem carriedAll_eq_flatMap (cs : List Node) : carriedAll cs = cs.flatMap carried := by
  induction cs with
  | nil => rfl
  | cons c cs ih => rw [carriedAll, ih, List.flatMap_cons]

@[simp] theorem carriedAll_nil : carriedAll [] = [] := rfl

@[simp] theorem carriedAll_cons (c : Node) (cs : List Node) :
    carriedAll (c :: cs) = c.carried ++ carriedAll cs := rfl

theorem carriedAll_append (cs cs' : List Node) :
    carriedAll (cs ++ cs') = carriedAll cs ++ carriedAll cs' := by
  simp [carriedAll_eq_flatMap]

theorem mem_carriedAll {g : Handle} {cs : List Node} :
    g ∈ carriedAll cs ↔ ∃ c ∈ cs, g ∈ c.carried := by
  simp [carriedAll_eq_flatMap]

theorem mem_carried {g : Handle} {n : Node} :
    g ∈ n.carried ↔ n.animator? = some g ∨ g ∈ n.handles := by
  rw [carried_eq]
  simp

theorem mem_carriedAll_of_clip {g k : Handle} {c : Node} {cs : List Node} (hc : c ∈ cs)
    (hg : c.animator? = some g) (hk : k ∈ g :: carriedAll c.children) : k ∈ carriedAll cs := by
  refine mem_carriedAll.mpr ⟨c, hc, mem_carried.mpr ?_⟩
  rcases List.mem_cons.mp hk with rfl | hk
  · exact .inl hg
  · exact .inr hk

theorem mem_hosted {g : Handle} {cs : List Node} :
    g ∈ hosted cs ↔ ∃ c ∈ cs, c.animator? = some g := by
  simp [hosted]

theorem hosted_cons (c : Node) (cs : List Node) :
    hosted (c :: cs) = c.animator?.toList ++ hosted cs := by
  rw [hosted, List.filterMap_cons]
  cases c.animator? <;> rfl

/-- What siblings host is part of what they and the nodes below them carry. -/
theorem hosted_sublist_carriedAll (cs : List Node) : (hosted cs).Sublist (carriedAll cs) := by
  induction cs with
  | nil => exact .slnil
  | cons c cs ih =>
    rw [carriedAll_cons, carried_eq, hosted, List.filterMap_cons, List.append_assoc]
    cases c.animator? with
    | none => exact ih.trans (List.sublist_append_right _ _)
    | some g => exact (ih.trans (List.sublist_append_right _ _)).cons_cons g

def head (n : Node) : Node :=
  { n with children := [] }

theorem head_eq_iff {n m : Node} : n.head = m.head ↔
    n.id = m.id ∧ n.kind = m.kind ∧ n.transform = m.transform ∧ n.visible = m.visible := by
  simp [head]

theorem animator?_of_head {n m : Node} (h : n.head = m.head) : n.animator? = m.animator? := by
  simp [animator?, (head_eq_iff.mp h).2.1]

theorem hosted_exchange {c c' : Node} (h : c'.head = c.head) (pre post : List Node) :
    hosted (pre ++ c' :: post) = hosted (pre ++ c :: post) := by
  simp [hosted, List.filterMap_cons, animator?_of_head h]

theorem mem_of_animator?_ne {b c : Node} {pre post : List Node} {g k : Handle}
    (hb : b ∈ pre ++ c :: post) (hg : c.animator? = some g) (hk : b.animator? = some k)
    (hne : k ≠ g) : b ∈ pre ++ post := by
  refine (List.mem_cons.mp (List.perm_middle.subset hb)).resolve_left ?_
  rintro rfl
  exact hne (Option.some.inj (hk.symm.trans hg))

/-- What links a node to the arena and to its siblings, leaving out how it is shown. -/
def core (n : Node) : ObjectId × NodeKind × List Node :=
  (n.id, n.kind, n.children)

theorem animator?_of_core {n m : Node} (h : n.core = m.core) : n.animator? = m.animator? := by
  simp only [core, Prod.mk.injEq] at h
  simp [animator?, h.2.1]

theorem carried_of_core {n m : Node} (h : n.core = m.core) : n.carried = m.carried := by
  rw [carried_eq, carried_eq, animator?_of_core h, handles, handles]
  simp only [core, Prod.mk.injEq] at h
  rw [h.2.2]

private theorem hosted_eq_of_core (cs : List Node) : hosted cs =
    (cs.map core).filterMap fun p => animator? ⟨p.1, p.2.1, .identity, true, p.2.2⟩ := by
  rw [List.filterMap_map]
  rfl

private theorem carriedAll_eq_of_core (cs : List Node) : carriedAll cs =
    (cs.map core).flatMap fun p => carried ⟨p.1, p.2.1, .identity, true, p.2.2⟩ := by
  rw [carriedAll_eq_flatMap, List.flatMap_map]
  exact List.flatMap_congr fun c _ => carried_of_core rfl

theorem hosted_perm_of_core {cs cs' : List Node} (h : (cs.map core).Perm (cs'.map core)) :
    (hosted cs).Perm (hosted cs') := by
  rw [hosted_eq_of_core, hosted_eq_of_core]
  exact h.filterMap _

theorem carriedAll_perm_of_core {cs cs' : List Node} (h : (cs.map core).Perm (cs'.map core)) :
    (carriedAll cs).Perm (carriedAll cs') := by
  rw [carriedAll_eq_of_core, carriedAll_eq_of_core]
  exact h.flatMap_right _

end Node

end SceneReel
