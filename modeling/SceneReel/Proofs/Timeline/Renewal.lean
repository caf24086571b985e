import Mathlib.Data.List.Nodup
import SceneReel.Proofs.Timeline.Reading

/-!
What a frame does to the node of one object, wherever it stands among its siblings. A node that is there
is replaced, or is changed in place to what the frame says: the same frames once more change nothing.
-/
namespace SceneReel

open SceneReel.Geometry

namespace Node

variable {xs ys : List Node} {n : Node} {id : ObjectId}

/-- Among siblings with ids of their own a node is found under its id. -/
theorem find?_eq_some_iff (h : (xs.map Node.id).Nodup) :
    xs.find? (·.id = id) = some n ↔ n ∈ xs ∧ n.id = id := by
  constructor
  · intro hf
    have hid := List.find?_some hf
    exact ⟨List.mem_of_find?_eq_some hf, of_decide_eq_true hid⟩
  · rintro ⟨hn, rfl⟩
    cases hf : xs.find? (·.id = n.id) with
    | none =>
      have hne := List.find?_eq_none.mp hf n hn
      exact absurd (decide_eq_true rfl) hne
    | some m =>
      have hid := List.find?_some hf
      rw [List.inj_on_of_nodup_map h (List.mem_of_find?_eq_some hf) hn (of_decide_eq_true hid)]

theorem find?_eq_none_iff : xs.find? (·.id = id) = none ↔ id ∉ xs.map Node.id := by
  simp [List.find?_eq_none]

theorem exists_find?_iff : (∃ n, xs.find? (·.id = id) = some n) ↔ id ∈ xs.map Node.id := by
  rw [← Option.ne_none_iff_exists', ne_eq, find?_eq_none_iff, not_not]

theorem perm_iff_find?_eq (hxs : (xs.map Node.id).Nodup) (hys : (ys.map Node.id).Nodup) :
    xs.Perm ys ↔ ∀ id, xs.find? (·.id = id) = ys.find? (·.id = id) := by
  constructor
  · intro hp id
    refine Option.ext fun n => ?_
    rw [find?_eq_some_iff hxs, find?_eq_some_iff hys, hp.mem_iff]
  · intro hf
    rw [List.perm_ext_iff_of_nodup hxs.of_map hys.of_map]
    intro n
    have hx : xs.find? (·.id = n.id) = some n ↔ _ := find?_eq_some_iff hxs
    have hy : ys.find? (·.id = n.id) = some n ↔ _ := find?_eq_some_iff hys
    rw [hf, hy] at hx
    simpa using hx.symm

/-- A node with another transform and another visibility, where these are given. -/
def touch (transform : Option Transform) (visible : Option Bool) (n : Node) : Node :=
  { n with
    transform := transform.getD n.transform
    visible := visible.getD n.visible }

theorem touch_touch (t t' : Option Transform) (v v' : Option Bool) (n : Node) :
    (n.touch t v).touch t' v' = n.touch (t'.or t) (v'.or v) := by
  cases t' <;> cases v' <;> simp [touch]

end Node

namespace Command

variable (new : CharId → ObjectId → Matrix → Node) (id : ObjectId)

/-- The node of an object after a command, from the one before. An object that is there is not placed
anew but moved. -/
def renew (x : Option Node) : Command → Option Node
  | .place char object _ m =>
    if object = id then some ((x.map (nodes.move m)).getD (new char object m)) else x
  | .move object m => if object = id then x.map (nodes.move m) else x
  | .remove object => if object = id then none else x
  | .reorder _ _ => x
  | .setVisible object visible => if object = id then x.map (nodes.setVisible visible) else x

end Command

/-- The node of an object after a frame; a new round starts without what it does not declare. -/
def Frame.renew (new : CharId → ObjectId → Matrix → Node) (id : ObjectId) (looped : Bool)
    (f : Frame) (x : Option Node) : Option Node :=
  f.known.foldl (Command.renew new id) (if looped && !f.places id then none else x)

section Renewal

variable {new : CharId → ObjectId → Matrix → Node} {id : ObjectId} {xs : List Node}

theorem map_id_arrange (hnew : ∀ char object m, (new char object m).id = object) (c : Command)
    (xs : List Node) : (c.arrange Command.nodes new xs).map Node.id = c.idsAfter (xs.map Node.id) :=
  Command.map_arrange Command.respects_id c xs fun _ _ _ _ _ => hnew _ _ _

theorem map_id_arrangeAll (hnew : ∀ char object m, (new char object m).id = object)
    (cs : List Command) (xs : List Node) :
    (Command.arrangeAll Command.nodes new cs xs).map Node.id =
      Command.idsAfterAll (xs.map Node.id) cs := by
  induction cs generalizing xs with
  | nil => rfl
  | cons c cs ih =>
    rw [Command.idsAfterAll_cons, ← map_id_arrange hnew c xs]
    exact ih _

theorem find?_perm {ys : List Node} (h : (xs.map Node.id).Nodup) (hp : ys.Perm xs) :
    ys.find? (·.id = id) = xs.find? (·.id = id) :=
  (Node.perm_iff_find?_eq ((hp.map Node.id).nodup_iff.mpr h) h).mp hp id

theorem find?_map_of_id {f : Node → Node} (hf : ∀ n, (f n).id = n.id) :
    (xs.map f).find? (·.id = id) = (xs.find? (·.id = id)).map f := by
  rw [List.find?_map]
  simp only [Function.comp_def, hf]

theorem find?_move (h : (xs.map Node.id).Nodup) (object : ObjectId) (m : Matrix) :
    ((Command.move object m).arrange Command.nodes new xs).find? (·.id = id) =
      (Command.move object m).renew new id (xs.find? (·.id = id)) := by
  -- as ids do not repeat, moving the first child with the id moves all children with it
  have hall : (Command.move object m).arrange Command.nodes new xs =
      xs.map fun n => if n.id = object then Command.nodes.move m n else n := by
    rw [Command.arrange]
    cases hu : updateFirst? (Command.nodes.id · = object)
        (fun n => (Command.nodes.move m n, ())) xs with
    | none =>
      have hne := updateFirst?_eq_none_iff.mp hu
      refine ((List.map_congr_left fun n hn => ?_).trans (List.map_id xs)).symm
      exact if_neg (of_decide_eq_false (hne n hn))
    | some out =>
      obtain ⟨ys, u⟩ := out
      obtain ⟨pre, n, post, rfl, hn, -, rfl, -⟩ := updateFirst?_eq_some hu
      have hn : n.id = object := of_decide_eq_true hn
      rw [List.map_append, List.map_cons, List.nodup_append, List.nodup_cons] at h
      have hother : ∀ ys : List Node, object ∉ ys.map Node.id →
          ys.map (fun n => if n.id = object then Command.nodes.move m n else n) = ys := by
        intro ys hys
        refine (List.map_congr_left fun b hb => ?_).trans (List.map_id ys)
        have hne : b.id ≠ object := fun he => hys (he ▸ List.mem_map_of_mem hb)
        exact if_neg hne
      rw [List.map_append, List.map_cons, if_pos hn, hother pre, hother post]
      · rfl
      · exact hn ▸ h.2.1.1
      · exact fun hin => h.2.2 object hin n.id List.mem_cons_self hn.symm
  rw [hall, find?_map_of_id fun n => by split <;> rfl, Command.renew]
  cases hf : xs.find? (·.id = id) with
  | none => simp
  | some n =>
    obtain ⟨-, hid⟩ := (Node.find?_eq_some_iff h).mp hf
    rw [Option.map_some, hid]
    by_cases ho : object = id
    · simp [ho]
    · simp [ho, Ne.symm ho]

theorem find?_arrange (hnew : ∀ char object m, (new char object m).id = object)
    (h : (xs.map Node.id).Nodup) (c : Command)
    (hfresh : ∀ object, c.placed? = some object → object ∉ xs.map Node.id) :
    (c.arrange Command.nodes new xs).find? (·.id = id) =
      c.renew new id (xs.find? (·.id = id)) := by
  cases c with
  | place char object before m =>
    have hout := hfresh object rfl
    have hcons : ((new char object m :: xs).map Node.id).Nodup := by
      rw [List.map_cons, hnew]
      exact List.nodup_cons.mpr ⟨hout, h⟩
    rw [Command.arrange, find?_perm hcons (Siblings.insertBefore_perm _ _ before xs),
      List.find?_cons, hnew, Command.renew]
    by_cases ho : object = id
    · rw [Node.find?_eq_none_iff.mpr (ho ▸ hout)]
      simp [ho]
    · simp [ho]
  | move object m => exact find?_move h object m
  | remove object =>
    rw [Command.arrange, List.find?_filter, Command.renew]
    by_cases ho : object = id
    · subst ho
      rw [if_pos rfl, List.find?_eq_none]
      intro n _ hn
      obtain ⟨hkept, hid⟩ := of_decide_eq_true hn
      exact of_decide_eq_true hkept (of_decide_eq_true hid)
    · rw [if_neg ho]
      refine congrArg (fun q => List.find? q xs) (funext fun n => ?_)
      by_cases hid : n.id = id
      · simp [Command.nodes, hid, Ne.symm ho]
      · simp [hid]
  | reorder object before =>
    cases before with
    | none => rfl
    | some before =>
      exact find?_perm h (Siblings.moveBefore?_getD_perm Command.nodes.id object before xs)
  | setVisible object visible =>
    rw [Command.arrange, find?_map_of_id fun n => by split <;> rfl, Command.renew]
    cases hf : xs.find? (·.id = id) with
    | none => simp
    | some n =>
      obtain ⟨-, hid⟩ := (Node.find?_eq_some_iff h).mp hf
      have hkey : Command.nodes.id n = id := hid
      rw [Option.map_some, hkey]
      by_cases ho : object = id
      · simp [ho]
      · simp [ho, Ne.symm ho]

theorem nodup_arrangeAll (hnew : ∀ char object m, (new char object m).id = object)
    (h : (xs.map Node.id).Nodup) {cs : List Command} (hfresh : Command.Fresh (xs.map Node.id) cs) :
    ((Command.arrangeAll Command.nodes new cs xs).map Node.id).Nodup := by
  induction cs generalizing xs with
  | nil => exact h
  | cons c cs ih =>
    have hnext := Command.nodup_idsAfter h hfresh.1
    rw [← map_id_arrange hnew c xs] at hnext
    exact ih hnext ((map_id_arrange hnew c xs).symm ▸ hfresh.2)

theorem find?_arrangeAll (id : ObjectId)
    (hnew : ∀ char object m, (new char object m).id = object) (h : (xs.map Node.id).Nodup) {cs : List Command} (hfresh : Command.Fresh (xs.map Node.id) cs) :
    (Command.arrangeAll Command.nodes new cs xs).find? (·.id = id) =
      cs.foldl (Command.renew new id) (xs.find? (·.id = id)) := by
  induction cs generalizing xs with
  | nil => rfl
  | cons c cs ih =>
    have hnext := Command.nodup_idsAfter h hfresh.1
    rw [← map_id_arrange hnew c xs] at hnext
    rw [List.foldl_cons, ← find?_arrange hnew h c hfresh.1]
    exact ih hnext ((map_id_arrange hnew c xs).symm ▸ hfresh.2)

theorem foldl_renew_step {live : List ObjectId} (hlive : ∀ object, object ∈ live ↔
      object ∈ xs.map Node.id) (c : Command) :
    (Plan.step live c).1.foldl (Command.renew new id) (xs.find? (·.id = id)) =
      c.renew new id (xs.find? (·.id = id)) := by
  cases c with
  | place char object before m =>
    rw [Plan.step]
    split
    · have hin := (hlive object).mp ‹_›
      simp only [List.foldl_cons, List.foldl_nil, Command.renew]
      by_cases ho : object = id
      · cases hf : xs.find? (·.id = id) with
        | none => exact absurd (ho ▸ hin) (Node.find?_eq_none_iff.mp hf)
        | some n => simp [ho]
      · simp [ho]
    · rfl
  | _ => rfl

theorem foldl_renew_steps (hnew : ∀ char object m, (new char object m).id = object)
    (h : (xs.map Node.id).Nodup) {live : List ObjectId}
    (hlive : ∀ object, object ∈ live ↔ object ∈ xs.map Node.id) (cs : List FrameCommand) :
    (Plan.steps live cs).foldl (Command.renew new id) (xs.find? (·.id = id)) =
      (cs.filterMap FrameCommand.command?).foldl (Command.renew new id) (xs.find? (·.id = id)) := by
  induction cs generalizing live xs with
  | nil => rfl
  | cons c cs ih =>
    cases c with
    | unsupported type => exact ih h hlive
    | known c =>
      have hfresh := Plan.fresh_step hlive c
      have hnext := find?_arrangeAll id hnew h hfresh
      have hlive' := Plan.mem_step_iff hlive c
      rw [← map_id_arrangeAll hnew] at hlive'
      rw [foldl_renew_step hlive] at hnext
      rw [Plan.steps, List.foldl_append, foldl_renew_step hlive, ← hnext]
      rw [ih (nodup_arrangeAll hnew h hfresh) hlive', hnext]
      rfl

/-- The plan of a frame does to the node of an object what the frame says. -/
theorem find?_ofFrame (hnew : ∀ char object m, (new char object m).id = object)
    (h : (xs.map Node.id).Nodup) (f : Frame) (looped : Bool) :
    (Command.arrangeAll Command.nodes new (Plan.ofFrame (xs.map Node.id) f looped).commands
      xs).find? (·.id = id) = f.renew new id looped (xs.find? (·.id = id)) := by
  generalize hremoved : (if looped then Plan.undeclared f (xs.map Node.id) else []) = removed
  have hlive := Plan.mem_live_iff (xs.map Node.id) f looped
  rw [hremoved, ← map_id_arrangeAll hnew] at hlive
  have hfresh : Command.Fresh (xs.map Node.id) _ := Plan.fresh_removes removed
  have hpruned := find?_arrangeAll id hnew h hfresh
  rw [find?_arrangeAll id hnew h (Plan.fresh_ofFrame _ f looped)]
  simp only [Plan.ofFrame, hremoved, List.foldl_append]
  rw [← hpruned, foldl_renew_steps hnew (nodup_arrangeAll hnew h hfresh) hlive, hpruned,
    Frame.renew, Frame.known]
  congr 1
  have hremove : ∀ (removed : List ObjectId) (x : Option Node),
      (removed.map Command.remove).foldl (Command.renew new id) x =
        if id ∈ removed then none else x := by
    intro removed
    induction removed with
    | nil => exact fun _ => rfl
    | cons object removed ih =>
      intro x
      rw [List.map_cons, List.foldl_cons, ih, Command.renew]
      by_cases ho : object = id
      · simp [ho]
      · simp [ho, Ne.symm ho]
  rw [hremove, ← hremoved]
  by_cases hin : id ∈ xs.map Node.id
  · cases looped <;> cases hp : f.places id <;> simp [Plan.mem_undeclared, hin, hp]
  · rw [Node.find?_eq_none_iff.mpr hin]
    simp

end Renewal

/-- A change of one node: the node becomes something that does not depend on it, or keeps all but how it
is shown. -/
def Mends (f : Option Node → Option Node) : Prop :=
  (∃ y, ∀ n, f (some n) = y) ∨ ∃ t v, ∀ n, f (some n) = some (n.touch t v)

namespace Mends

variable {f g : Option Node → Option Node} {new : CharId → ObjectId → Matrix → Node} {id : ObjectId}

theorem refl : Mends fun x => x := by
  refine .inr ⟨none, none, fun n => ?_⟩
  cases n
  rfl

theorem comp (hg : Mends g) (hf : Mends f) : Mends fun x => g (f x) := by
  rcases hf with ⟨y, hf⟩ | ⟨t, v, hf⟩
  · exact .inl ⟨g y, fun n => congrArg g (hf n)⟩
  · rcases hg with ⟨z, hg⟩ | ⟨t', v', hg⟩
    · exact .inl ⟨z, fun n => (congrArg g (hf n)).trans (hg _)⟩
    · refine .inr ⟨t'.or t, v'.or v, fun n => ?_⟩
      show g (f (some n)) = _
      rw [hf, hg, Node.touch_touch]

theorem again (hf : Mends f) {n m : Node} (h : f (some n) = some m) : f (some m) = some m := by
  rcases hf with ⟨y, hf⟩ | ⟨t, v, hf⟩
  · rw [hf, ← h, hf]
  · rw [hf] at h ⊢
    cases h
    rw [Node.touch_touch, Option.or_self, Option.or_self]

theorem command (c : Command) : Mends (Command.renew new id · c) := by
  have hother : ∀ {object : ObjectId} {y : Option Node → Option Node}, Mends y →
      Mends fun x => if object = id then y x else x := by
    intro object y hy
    by_cases ho : object = id
    · simpa only [if_pos ho] using hy
    · simpa only [if_neg ho] using refl
  cases c with
  | place char object before m =>
    exact hother (y := fun x => some ((x.map (Command.nodes.move m)).getD (new char object m)))
      (.inr ⟨some m.decompose, none, fun _ => rfl⟩)
  | move object m =>
    exact hother (y := fun x => x.map (Command.nodes.move m))
      (.inr ⟨some m.decompose, none, fun _ => rfl⟩)
  | remove object => exact hother (y := fun _ => none) (.inl ⟨none, fun _ => rfl⟩)
  | reorder object before => exact refl
  | setVisible object visible =>
    exact hother (y := fun x => x.map (Command.nodes.setVisible visible))
      (.inr ⟨none, some visible, fun _ => rfl⟩)

theorem commands (cs : List Command) : Mends (cs.foldl (Command.renew new id)) := by
  induction cs with
  | nil => exact refl
  | cons c cs ih => exact ih.comp (command c)

theorem frame (new : CharId → ObjectId → Matrix → Node) (id : ObjectId) (f : Frame)
    (looped : Bool) : Mends (f.renew new id looped) := by
  refine (commands f.known).comp (f := fun x => if looped && !f.places id then none else x) ?_
  cases looped && !f.places id with
  | false => exact refl
  | true => exact .inl ⟨none, fun _ => rfl⟩

end Mends

end SceneReel
