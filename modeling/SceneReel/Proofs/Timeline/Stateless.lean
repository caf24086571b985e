import SceneReel.Proofs.Timeline.Fresh

/-!
The plan of a frame without the list of what is there that planning keeps: each command of the frame is
answered by what the earlier ones say of its object, and a new round first removes what no placement of the
frame declares.
-/
namespace SceneReel

/-- Whether an object is there after a command of a frame, for a command that places or removes it. -/
def FrameCommand.fate? (id : ObjectId) : FrameCommand → Option Bool
  | .known (.place _ object _ _) => if object = id then some true else none
  | .known (.remove object) => if object = id then some false else none
  | _ => none

namespace Plan

section Reference

variable (ids pruned : List ObjectId)

/-- Whether an object is there after some commands of a frame: the last one that places or removes it
decides. -/
def present (earlier : List FrameCommand) (id : ObjectId) : Bool :=
  (earlier.reverse.findSome? (·.fate? id)).getD (id ∈ ids && id ∉ pruned)

/-- What a plan makes of a command of a frame, given which objects are there. -/
def answer (isThere : ObjectId → Bool) : FrameCommand → List Command
  | .unsupported _ => []
  | .known (.place char object before matrix) =>
    if isThere object then [.move object matrix, .reorder object before]
    else [.place char object before matrix]
  | .known c => [c]

def answers (cs : List FrameCommand) : List (List Command) :=
  cs.mapIdx fun i c => answer (present ids pruned (cs.take i)) c

end Reference

variable {ids pruned live : List ObjectId}

theorem present_append (earlier : List FrameCommand) (c : FrameCommand) (id : ObjectId) :
    present ids pruned (earlier ++ [c]) id = (c.fate? id).getD (present ids pruned earlier id) := by
  unfold present
  rw [List.reverse_append, List.reverse_singleton, List.singleton_append, List.findSome?_cons]
  cases c.fate? id <;> rfl

theorem mem_step (live : List ObjectId) (c : Command) (id : ObjectId) :
    decide (id ∈ (step live c).2) = ((FrameCommand.known c).fate? id).getD (decide (id ∈ live)) := by
  cases c with
  | place char object before m =>
    by_cases hin : object ∈ live <;> by_cases hid : object = id <;>
      simp_all [step, FrameCommand.fate?, eq_comm]
  | remove object =>
    by_cases hid : object = id <;> simp_all [step, FrameCommand.fate?, eq_comm]
  | _ => rfl

theorem step_eq_answer {isThere : ObjectId → Bool} (hlive : ∀ id, decide (id ∈ live) = isThere id)
    (c : Command) : (step live c).1 = answer isThere (.known c) := by
  cases c with
  | place char object before m =>
    rw [step, answer, ← hlive object]
    by_cases hin : object ∈ live <;> simp [hin]
  | _ => rfl

/-- Planning answers each command by what the commands before it say. -/
theorem steps_eq_answers (earlier : List FrameCommand)
    (hlive : ∀ id, decide (id ∈ live) = present ids pruned earlier id) (cs : List FrameCommand) :
    steps live cs =
      (cs.mapIdx fun i c => answer (present ids pruned (earlier ++ cs.take i)) c).flatten := by
  induction cs generalizing live earlier with
  | nil => rfl
  | cons c cs ih =>
    have hshift : ∀ i, earlier ++ (c :: cs).take (i + 1) = (earlier ++ [c]) ++ cs.take i := by
      simp
    rw [List.mapIdx_cons, List.flatten_cons, List.take_zero, List.append_nil]
    simp only [hshift]
    cases c with
    | unsupported type =>
      have hnext : ∀ id, decide (id ∈ live) =
          present ids pruned (earlier ++ [.unsupported type]) id := fun id => by
        rw [present_append]
        exact hlive id
      rw [steps, answer, List.nil_append, ih _ hnext]
    | known c =>
      have hnext : ∀ id, decide (id ∈ (step live c).2) =
          present ids pruned (earlier ++ [.known c]) id := fun id => by
        rw [present_append, ← hlive]
        exact mem_step live c id
      have hsteps : steps live (.known c :: cs) = (step live c).1 ++ steps (step live c).2 cs := rfl
      rw [hsteps, step_eq_answer hlive, ih _ hnext]

theorem places_eq_false_iff {frame : Frame} {id : ObjectId} : frame.places id = false ↔
    ∀ char before m, .known (.place char id before m) ∉ frame.commands := by
  unfold Frame.places
  rw [List.any_eq_false]
  constructor
  · intro h char before m hc
    exact h _ hc (decide_eq_true rfl)
  · intro h c hc
    split
    · rename_i char object before m
      intro he
      rw [of_decide_eq_true he] at hc
      exact h char before m hc
    · exact Bool.false_ne_true

/-- A plan is the removals of a new round, and then what the commands of the frame come to one by one. -/
theorem ofFrame_stateless (target : Node) (frame : Frame) (looped : Bool) :
    ∃ pruned : List ObjectId,
      (∀ id, id ∈ pruned ↔ looped = true ∧ id ∈ target.childIds ∧
        ∀ char before m, .known (.place char id before m) ∉ frame.commands) ∧
      pruned.Pairwise (fun a b => target.childIds.idxOf a < target.childIds.idxOf b) ∧
      (ofFrame target.childIds frame looped).pruned = pruned.length ∧
      (ofFrame target.childIds frame looped).commands =
        pruned.map .remove ++ (answers target.childIds pruned frame.commands).flatten := by
  have hsteps : steps (if looped then target.childIds.filter frame.places else target.childIds)
      frame.commands = (answers target.childIds
        (if looped then undeclared frame target.childIds else []) frame.commands).flatten := by
    refine steps_eq_answers [] (fun id => ?_) frame.commands
    cases looped with
    | false => simp [present]
    | true => cases hid : frame.places id <;> simp [present, mem_undeclared, hid]
  refine ⟨if looped then undeclared frame target.childIds else [], fun id => ?_, ?_, rfl, ?_⟩
  · cases looped with
    | false => simp
    | true => simp [mem_undeclared, places_eq_false_iff]
  · cases looped with
    | false => exact .nil
    | true => exact pairwise_eraseDups _ _
  · rw [← hsteps]
    rfl

end Plan

end SceneReel
