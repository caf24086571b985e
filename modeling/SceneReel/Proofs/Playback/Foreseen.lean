import SceneReel.Proofs.Playback.Players
import SceneReel.Proofs.Timeline.Fresh

/-!
A frame is planned in full before any of its plan is executed. What planning takes to be there is what each
command then finds: no removal, placement or turned placement meets another node than was foreseen, and no
object becomes more frequent among the children than it was, once it is there at all.
-/
namespace SceneReel

namespace Command

section Fresh

variable {xs : List ObjectId} {id : ObjectId}

theorem idsAfterAll_append (xs : List ObjectId) (cs ds : List Command) :
    idsAfterAll xs (cs ++ ds) = idsAfterAll (idsAfterAll xs cs) ds :=
  List.foldl_append

theorem Fresh.not_mem {lead trail : List Command} {c : Command} (h : Fresh xs (lead ++ c :: trail))
    (hc : c.placed? = some id) : id ∉ idsAfterAll xs lead := by
  induction lead generalizing xs with
  | nil => exact h.1 id hc
  | cons d lead ih => exact ih h.2

theorem count_idsAfter_le {c : Command} (hc : ∀ object, c.placed? = some object → object ∉ xs)
    (id : ObjectId) : (c.idsAfter xs).count id ≤ max 1 (xs.count id) := by
  cases c with
  | place char object before m =>
    have hperm : ((Command.place char object before m).idsAfter xs).Perm (object :: xs) :=
      Siblings.insertBefore_perm ids.id object before xs
    rw [hperm.count_eq, List.count_cons]
    by_cases hid : object = id
    · have hnone := List.count_eq_zero.mpr (hid ▸ hc object rfl)
      simp [hid, hnone]
    · rw [if_neg (by simpa using hid)]
      exact Nat.le_max_right _ _
  | remove object =>
    have hsub : ((Command.remove object).idsAfter xs).Sublist xs := List.filter_sublist
    exact (hsub.count_le id).trans (Nat.le_max_right _ _)
  | _ => exact ((idsAfter_perm rfl rfl).count_eq id).le.trans (Nat.le_max_right _ _)

/-- Fresh commands do not make an object more frequent than one, nor than it was. -/
theorem Fresh.count_le {cs : List Command} (h : Fresh xs cs) (id : ObjectId) :
    (idsAfterAll xs cs).count id ≤ max 1 (xs.count id) := by
  induction cs generalizing xs with
  | nil => exact Nat.le_max_right _ _
  | cons c cs ih =>
    have hstep := count_idsAfter_le h.1 id
    have hrest := ih h.2
    rw [idsAfterAll_cons]
    omega

end Fresh

section Execution

variable (s : Setting) (p : Player) (h : Handle) (n : Node) (r : Run)

/-- The ids of the children once some commands have been executed. -/
def idsFound (cs : List Command) : List ObjectId :=
  (executeAll s p h cs n r).1.childIds

def outcomeAfter (cs : List Command) (c : Command) : Outcome :=
  let (n, r) := executeAll s p h cs n r
  (c.execute s p h n r).1

variable {s p h n r} {id : ObjectId}

theorem idsFound_eq (hp : p.KeepsHead) (cs : List Command) :
    idsFound s p h n r cs = idsAfterAll n.childIds cs := by
  induction cs generalizing n r with
  | nil => rfl
  | cons c cs ih =>
    have hstep := childIds_arrange (s := s) hp h c n r
    have hrest := @ih { n with
      children := c.arrange nodes (fun x y m => (enter s p h x y m r).1) n.children }
    rw [idsFound, executeAll_cons, idsAfterAll_cons, ← hstep]
    exact hrest

end Execution

end Command

namespace Plan

open Command

/-- The part of a plan that it begins with: the removals of a new round, and what the first commands come
to. -/
def leading (ids : List ObjectId) (frame : Frame) (looped : Bool) (earlier : List FrameCommand) :
    List Command :=
  (if looped then undeclared frame ids else []).map .remove ++
    steps (if looped then ids.filter frame.places else ids) earlier

/-- What planning a frame on a node foresees: which children there are when a command is executed, and
what it comes to. -/
structure Foreseen (s : Setting) (p : Player) (h : Handle) (n : Node) (f : Frame) (looped : Bool)
    (r : Run) : Prop where
  /-- The removals that a new round starts with take effect. -/
  pruned : ∀ lead c trail, (ofFrame n.childIds f looped).commands = lead ++ c :: trail →
    lead.length < (ofFrame n.childIds f looped).pruned →
    ∃ object, c = .remove object ∧ outcomeAfter s p h n r lead c = .applied
  /-- An object is placed when no child has its id. -/
  placed : ∀ lead char object before m trail,
    (ofFrame n.childIds f looped).commands = lead ++ .place char object before m :: trail →
    object ∉ idsFound s p h n r lead
  /-- Each placement of the frame is executed as one, or turned into a move and a reorder, and these find
  a child with the id. -/
  turned : ∀ earlier char object before m later,
    f.commands = earlier ++ .known (.place char object before m) :: later →
    ∃ trail,
      (ofFrame n.childIds f looped).commands =
        leading n.childIds f looped earlier ++ .place char object before m :: trail ∨
      ((ofFrame n.childIds f looped).commands =
        leading n.childIds f looped earlier ++ .move object m :: .reorder object before :: trail ∧
      object ∈ idsFound s p h n r (leading n.childIds f looped earlier) ∧
      outcomeAfter s p h n r (leading n.childIds f looped earlier) (.move object m) = .applied ∧
      object ∈ idsFound s p h n r (leading n.childIds f looped earlier ++ [.move object m]) ∧
      outcomeAfter s p h n r (leading n.childIds f looped earlier ++ [.move object m])
        (.reorder object before) ≠ .lookupMiss)
  /-- No id has more children than before, if it has more than one. -/
  count : ∀ id, (idsFound s p h n r (ofFrame n.childIds f looped).commands).count id ≤
    max 1 (n.childIds.count id)

variable {s : Setting} {p : Player} {h : Handle} {n : Node} {r : Run} {live xs : List ObjectId}

/-- Planning goes on from what it takes the first commands to leave. -/
theorem exists_steps_append (hlive : ∀ x, x ∈ live ↔ x ∈ xs) (earlier : List FrameCommand) :
    ∃ live', (∀ x, x ∈ live' ↔ x ∈ idsAfterAll xs (steps live earlier)) ∧
      ∀ later, steps live (earlier ++ later) = steps live earlier ++ steps live' later := by
  induction earlier generalizing live xs with
  | nil => exact ⟨live, hlive, fun _ => rfl⟩
  | cons c earlier ih =>
    cases c with
    | unsupported type => exact ih hlive
    | known c =>
      obtain ⟨live', hlive', hsteps⟩ := ih (mem_step_iff hlive c)
      refine ⟨live', fun x => (hlive' x).trans ?_, fun later => ?_⟩
      · rw [← idsAfterAll_append]
        rfl
      · exact (congrArg ((step live c).1 ++ ·) (hsteps later)).trans (List.append_assoc ..).symm

/-- The removals of a new round come one by one, each of another child. -/
theorem exists_removal {f : Frame} {looped : Bool} {lead trail : List Command} {c : Command}
    (hplan : (ofFrame xs f looped).commands = lead ++ c :: trail)
    (hlead : lead.length < (ofFrame xs f looped).pruned) :
    ∃ object, c = .remove object ∧ object ∈ idsAfterAll xs lead := by
  obtain ⟨removed, rest, hnodup, hsub, hcommands, hpruned⟩ := exists_removals xs f looped
  rw [hpruned] at hlead
  obtain ⟨mid, hsplit⟩ : ∃ mid, removed.map Command.remove = lead ++ c :: mid := by
    rcases List.append_eq_append_iff.mp (hcommands.symm.trans hplan) with
      ⟨mid, rfl, -⟩ | ⟨mid, hmid, hrest⟩
    · rw [List.length_append, List.length_map] at hlead
      omega
    · rcases List.cons_eq_append_iff.mp hrest with ⟨rfl, -⟩ | ⟨mid, rfl, rfl⟩
      · have hlength := congrArg List.length hmid
        rw [List.append_nil, List.length_map] at hlength
        omega
      · exact ⟨mid, hmid⟩
  obtain ⟨before, after, rfl, rfl, hafter⟩ := List.map_eq_append_iff.mp hsplit
  obtain ⟨object, after, rfl, rfl, -⟩ := List.map_eq_cons_iff.mp hafter
  refine ⟨object, rfl, mem_idsAfterAll_removes.mpr ⟨hsub ?_, fun hin => ?_⟩⟩
  · exact List.mem_append_right _ List.mem_cons_self
  · exact (List.nodup_append.mp hnodup).2.2 object hin object List.mem_cons_self rfl

/-- Planning foresees right, whatever the nested animators do when they play at once. -/
theorem foreseen_of_keepsHead (hp : p.KeepsHead) (f : Frame) (looped : Bool) :
    Foreseen s p h n f looped r where
  pruned lead c trail hplan hlead := by
    obtain ⟨object, rfl, hobject⟩ := exists_removal hplan hlead
    refine ⟨object, rfl, outcome_remove _ _ _ _ ?_⟩
    rwa [← idsFound_eq (s := s) (h := h) (r := r) hp] at hobject
  placed lead char object before m trail hplan := by
    have hfresh := fresh_ofFrame n.childIds f looped
    rw [hplan] at hfresh
    rw [idsFound_eq hp]
    exact hfresh.not_mem rfl
  turned earlier char object before m later hf := by
    obtain ⟨live, hlive, hsteps⟩ :=
      exists_steps_append (mem_live_iff n.childIds f looped) earlier
    rw [← idsAfterAll_append] at hlive
    have hplan : (ofFrame n.childIds f looped).commands = leading n.childIds f looped earlier ++
        steps live (.known (.place char object before m) :: later) := by
      rw [leading, List.append_assoc, ← hsteps, ← hf]
      rfl
    rw [hplan]
    by_cases hin : object ∈ live
    · have hfound : object ∈ idsFound s p h n r (leading n.childIds f looped earlier) := by
        rw [idsFound_eq hp]
        exact (hlive object).mp hin
      have hstill : object ∈ idsFound s p h n r
          (leading n.childIds f looped earlier ++ [.move object m]) := by
        rw [idsFound_eq hp] at hfound ⊢
        rw [idsAfterAll_append, idsAfterAll_cons, idsAfterAll_nil, (idsAfter_perm rfl rfl).mem_iff]
        exact hfound
      refine ⟨steps live later, .inr ⟨?_, hfound, outcome_move _ _ _ _ hfound m, hstill,
        outcome_reorder _ _ _ _ hstill before⟩⟩
      rw [steps, step, if_pos hin]
      rfl
    · refine ⟨steps (object :: live) later, .inl ?_⟩
      rw [steps, step, if_neg hin]
      rfl
  count id := by
    rw [idsFound_eq hp]
    exact (fresh_ofFrame n.childIds f looped).count_le id

theorem playChain_keepsHead (s : Setting) (k : Nat) : (playChain s idle k).KeepsHead := by
  cases k with
  | zero => exact fun _ _ _ => rfl
  | succ k => exact playStep_head s _

/-- Executed on the node that it was made for, a plan removes, places and moves as it foresees. -/
theorem batch_as_planned (s : Setting) (k : Nat) (h : Handle) (n : Node) (f : Frame) (looped : Bool)
    (r : Run) : Foreseen s (playChain s idle k) h n f looped r :=
  foreseen_of_keepsHead (playChain_keepsHead s k) f looped

end Plan

end SceneReel
