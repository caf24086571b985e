import SceneReel.Proofs.Playback.Arrange

/-!
The plan of a frame foresees which objects are there: it places an object only when no child has its id,
and only one that the frame places.
-/
namespace SceneReel

namespace Command

def ids : Staging ObjectId where
  id := fun x => x
  move := fun _ x => x
  setVisible := fun _ x => x

def idsAfter (c : Command) (xs : List ObjectId) : List ObjectId :=
  c.arrange ids (fun _ object _ => object) xs

/-- Each object is placed when it is not there. -/
def Fresh : List ObjectId → List Command → Prop
  | _, [] => True
  | xs, c :: cs => (∀ id, c.placed? = some id → id ∉ xs) ∧ Fresh (c.idsAfter xs) cs

def idsAfterAll (xs : List ObjectId) (cs : List Command) : List ObjectId :=
  cs.foldl (fun xs c => c.idsAfter xs) xs

variable {id : ObjectId} {xs : List ObjectId}

@[simp] theorem idsAfterAll_nil : idsAfterAll xs [] = xs := rfl

@[simp] theorem idsAfterAll_cons {c : Command} {cs : List Command} :
    idsAfterAll xs (c :: cs) = idsAfterAll (c.idsAfter xs) cs := rfl

theorem Fresh.append {cs ds : List Command} (h : Fresh xs cs) (h' : Fresh (idsAfterAll xs cs) ds) :
    Fresh xs (cs ++ ds) := by
  induction cs generalizing xs with
  | nil => exact h'
  | cons c cs ih => exact ⟨h.1, ih h.2 h'⟩

theorem mem_idsAfter_place {char : CharId} {object : ObjectId} {before : Option ObjectId}
    {m : Geometry.Matrix} :
    id ∈ (Command.place char object before m).idsAfter xs ↔ id = object ∨ id ∈ xs := by
  rw [idsAfter, arrange, (Siblings.insertBefore_perm ids.id object before xs).mem_iff,
    List.mem_cons]

theorem mem_idsAfter_remove {object : ObjectId} :
    id ∈ (Command.remove object).idsAfter xs ↔ id ∈ xs ∧ id ≠ object :=
  List.mem_filter.trans (and_congr_right fun _ => decide_eq_true_iff)

theorem idsAfter_perm {c : Command} (hp : c.placed? = none) (hr : c.removed? = none) :
    (c.idsAfter xs).Perm xs :=
  arrange_perm (fun _ _ => rfl) (fun _ _ => rfl) hp hr

theorem nodup_idsAfter {c : Command} (hnodup : xs.Nodup)
    (hfresh : ∀ id, c.placed? = some id → id ∉ xs) : (c.idsAfter xs).Nodup := by
  cases c with
  | place char object before m =>
    exact (Siblings.insertBefore_perm ids.id object before xs).nodup_iff.mpr
      (List.nodup_cons.mpr ⟨hfresh object rfl, hnodup⟩)
  | remove object => exact hnodup.sublist List.filter_sublist
  | _ => exact (idsAfter_perm rfl rfl).nodup_iff.mpr hnodup

theorem respects_id : Respects (fun n x => Node.id n = x) nodes ids where
  id := fun _ _ h => h
  move := fun _ _ _ h => h
  setVisible := fun _ _ _ h => h

end Command

/-- The commands of a frame that playback knows. -/
def Frame.known (f : Frame) : List Command :=
  f.commands.filterMap FrameCommand.command?

theorem Frame.places_iff {f : Frame} {id : ObjectId} :
    f.places id = true ↔ ∃ c ∈ f.known, c.placed? = some id := by
  unfold places known
  rw [List.any_eq_true]
  constructor
  · rintro ⟨c, hc, hid⟩
    cases c with
    | unsupported type => cases hid
    | known c =>
      refine ⟨c, List.mem_filterMap.mpr ⟨_, hc, rfl⟩, ?_⟩
      cases c with
      | place char object before m => simpa [Command.placed?] using hid
      | _ => cases hid
  · rintro ⟨c, hc, hid⟩
    obtain ⟨d, hd, hdc⟩ := List.mem_filterMap.mp hc
    refine ⟨d, hd, ?_⟩
    cases d with
    | unsupported type => cases hdc
    | known d =>
      cases hdc
      cases c with
      | place char object before m => simpa [Command.placed?] using hid
      | _ => cases hid

namespace Plan

open Command

variable {live xs : List ObjectId}

/-- What the plan takes a command to leave is what it leaves. -/
theorem mem_step_iff (hlive : ∀ x, x ∈ live ↔ x ∈ xs) (c : Command) (x : ObjectId) :
    x ∈ (step live c).2 ↔ x ∈ idsAfterAll xs (step live c).1 := by
  cases c with
  | place char object before m =>
    by_cases hin : object ∈ live
    · simp only [step, hin, if_true, idsAfterAll_cons, idsAfterAll_nil]
      rw [(idsAfter_perm rfl rfl).mem_iff, (idsAfter_perm rfl rfl).mem_iff]
      exact hlive x
    · simp only [step, hin, if_false, idsAfterAll_cons, idsAfterAll_nil]
      rw [mem_idsAfter_place, List.mem_cons, hlive]
  | remove object =>
    simp only [step, idsAfterAll_cons, idsAfterAll_nil, mem_idsAfter_remove, List.mem_filter, hlive]
    simp
  | _ =>
    simp only [step, idsAfterAll_cons, idsAfterAll_nil]
    rw [(idsAfter_perm rfl rfl).mem_iff]
    exact hlive x

theorem fresh_step (hlive : ∀ x, x ∈ live ↔ x ∈ xs) (c : Command) : Fresh xs (step live c).1 := by
  cases c with
  | place char object before m =>
    by_cases hin : object ∈ live
    · simp [step, hin, Fresh, placed?]
    · simp only [step, hin, if_false, Fresh, and_true]
      intro id hid
      cases hid
      rwa [← hlive]
  | _ => simp [step, Fresh, placed?]

/-- The liveness that the plan keeps is that of the children, so its placements are fresh. -/
theorem fresh_steps (hlive : ∀ x, x ∈ live ↔ x ∈ xs) (cs : List FrameCommand) :
    Fresh xs (steps live cs) := by
  induction cs generalizing live xs with
  | nil => trivial
  | cons c cs ih =>
    cases c with
    | unsupported type => exact ih hlive
    | known c => exact (fresh_step hlive c).append (ih (mem_step_iff hlive c))

theorem mem_idsAfterAll_removes {removed : List ObjectId} {x : ObjectId} :
    x ∈ idsAfterAll xs (removed.map .remove) ↔ x ∈ xs ∧ x ∉ removed := by
  induction removed generalizing xs with
  | nil => simp
  | cons object removed ih =>
    rw [List.map_cons, idsAfterAll_cons, ih, mem_idsAfter_remove, List.mem_cons, not_or, and_assoc]

theorem fresh_removes (removed : List ObjectId) : Fresh xs (removed.map .remove) := by
  induction removed generalizing xs with
  | nil => trivial
  | cons object removed ih => exact ⟨by simp [placed?], ih⟩

theorem mem_undeclared {frame : Frame} {x : ObjectId} :
    x ∈ undeclared frame xs ↔ x ∈ xs ∧ frame.places x = false := by
  rw [undeclared, List.mem_eraseDups]
  simp

/-- What is kept of a list, each item once, comes in the order of first occurrence. -/
theorem pairwise_eraseDups (p : ObjectId → Bool) (xs : List ObjectId) :
    (xs.filter p).eraseDups.Pairwise fun a b => xs.idxOf a < xs.idxOf b := by
  induction xs generalizing p with
  | nil => exact .nil
  | cons x xs ih =>
    -- behind `x` each item other than `x` comes one later than in the rest
    have hlater : ∀ q : ObjectId → Bool, q x = false →
        (xs.filter q).eraseDups.Pairwise fun a b => (x :: xs).idxOf a < (x :: xs).idxOf b := by
      intro q hq
      refine (ih q).imp_of_mem fun {a b} ha hb hab => ?_
      have hne : ∀ y ∈ (xs.filter q).eraseDups, x ≠ y := by
        rintro y hy rfl
        rw [(List.mem_filter.mp (List.mem_eraseDups.mp hy)).2] at hq
        cases hq
      rw [List.idxOf_cons_ne _ (hne a ha), List.idxOf_cons_ne _ (hne b hb)]
      exact Nat.succ_lt_succ hab
    cases hx : p x with
    | false =>
      rw [List.filter_cons_of_neg (by simp [hx])]
      exact hlater p hx
    | true =>
      rw [List.filter_cons_of_pos hx, List.eraseDups_cons, List.filter_filter]
      refine List.pairwise_cons.mpr ⟨fun y hy => ?_, hlater _ (by simp)⟩
      have hne : x ≠ y := by
        rintro rfl
        simpa using (List.mem_filter.mp (List.mem_eraseDups.mp hy)).2
      rw [List.idxOf_cons_self, List.idxOf_cons_ne _ hne]
      exact Nat.succ_pos _

theorem nodup_undeclared (frame : Frame) (xs : List ObjectId) : (undeclared frame xs).Nodup :=
  (pairwise_eraseDups _ xs).imp fun {a b} hab he => by
    rw [he] at hab
    exact Nat.lt_irrefl _ hab

/-- A plan first removes what is there, each child once, as often as it says. -/
theorem exists_removals (xs : List ObjectId) (frame : Frame) (looped : Bool) :
    ∃ (removed : List ObjectId) (rest : List Command), removed.Nodup ∧ removed ⊆ xs ∧
      (ofFrame xs frame looped).commands = removed.map .remove ++ rest ∧
      (ofFrame xs frame looped).pruned = removed.length := by
  refine ⟨if looped then undeclared frame xs else [], _, ?_, ?_, rfl, rfl⟩
  · split
    · exact nodup_undeclared frame xs
    · exact List.nodup_nil
  · split
    · exact fun x hx => (mem_undeclared.mp hx).1
    · exact List.nil_subset xs

theorem mem_live_iff (xs : List ObjectId) (frame : Frame) (looped : Bool) (x : ObjectId) :
    x ∈ (if looped then xs.filter frame.places else xs) ↔
      x ∈ idsAfterAll xs ((if looped then undeclared frame xs else []).map .remove) := by
  rw [mem_idsAfterAll_removes]
  cases looped with
  | false => simp
  | true =>
    simp only [if_true, List.mem_filter, mem_undeclared]
    by_cases hx : frame.places x = true <;> simp [hx]

theorem fresh_ofFrame (xs : List ObjectId) (frame : Frame) (looped : Bool) :
    Fresh xs (ofFrame xs frame looped).commands :=
  (fresh_removes _).append (fresh_steps (mem_live_iff xs frame looped) _)

/-- A command is planned with its own id only as a placement that the frame has. -/
theorem placed?_of_mem_step {c d : Command} {id : ObjectId} (hc : c ∈ (step live d).1)
    (hp : c.placed? = some id) : d.placed? = some id := by
  cases d with
  | place char object before m =>
    rw [step] at hc
    split at hc
    · simp only [List.mem_cons, List.not_mem_nil, or_false] at hc
      rcases hc with rfl | rfl <;> cases hp
    · rw [List.mem_singleton.mp hc] at hp
      exact hp
  | _ =>
    rw [List.mem_singleton.mp hc] at hp
    exact hp

theorem places_of_mem_steps {cs : List FrameCommand} {c : Command} {id : ObjectId}
    (hc : c ∈ steps live cs) (hp : c.placed? = some id) :
    ∃ d ∈ cs.filterMap FrameCommand.command?, d.placed? = some id := by
  induction cs generalizing live with
  | nil => cases hc
  | cons d cs ih =>
    cases d with
    | unsupported type => exact ih hc
    | known d =>
      rcases List.mem_append.mp hc with hc | hc
      · exact ⟨d, List.mem_cons_self, placed?_of_mem_step hc hp⟩
      · obtain ⟨d', hd', hid⟩ := ih hc
        exact ⟨d', List.mem_cons_of_mem _ hd', hid⟩

theorem places_of_mem_ofFrame {frame : Frame} {looped : Bool} {c : Command} {id : ObjectId}
    (hc : c ∈ (ofFrame xs frame looped).commands) (hp : c.placed? = some id) :
    frame.places id = true := by
  rcases List.mem_append.mp hc with hc | hc
  · obtain ⟨object, -, rfl⟩ := List.mem_map.mp hc
    cases hp
  · exact Frame.places_iff.mpr (places_of_mem_steps hc hp)

/-- How many placements are turned into a move and a reorder, their object being there already. -/
def turnedFrom (live : List ObjectId) : List FrameCommand → Nat
  | [] => 0
  | .unsupported _ :: cs => turnedFrom live cs
  | .known c :: cs =>
    (if c.placed?.any (· ∈ live) then 1 else 0) + turnedFrom (step live c).2 cs

def turned (ids : List ObjectId) (frame : Frame) (looped : Bool) : Nat :=
  turnedFrom (if looped then ids.filter frame.places else ids) frame.commands

theorem length_step (live : List ObjectId) (c : Command) :
    (step live c).1.length = 1 + if c.placed?.any (· ∈ live) then 1 else 0 := by
  cases c with
  | place char object before m => by_cases hin : object ∈ live <;> simp [step, placed?, hin]
  | _ => rfl

theorem length_steps (live : List ObjectId) (cs : List FrameCommand) :
    (steps live cs).length = (cs.filterMap FrameCommand.command?).length + turnedFrom live cs := by
  induction cs generalizing live with
  | nil => rfl
  | cons c cs ih =>
    cases c with
    | unsupported type => exact ih live
    | known c =>
      have hsteps : (steps live (.known c :: cs)).length =
          (step live c).1.length + (steps (step live c).2 cs).length := List.length_append
      have hknown : ((FrameCommand.known c :: cs).filterMap FrameCommand.command?).length =
          (cs.filterMap FrameCommand.command?).length + 1 := rfl
      rw [hsteps, hknown, length_step, ih, turnedFrom]
      omega

/-- A plan has the commands that prune, those of the frame, and one more for each placement that it turns
into two. -/
theorem length_ofFrame (ids : List ObjectId) (frame : Frame) (looped : Bool) :
    (ofFrame ids frame looped).commands.length =
      (ofFrame ids frame looped).pruned + frame.known.length + turned ids frame looped := by
  have hcommands : (ofFrame ids frame looped).commands.length =
      (ofFrame ids frame looped).pruned +
        (steps (if looped then ids.filter frame.places else ids) frame.commands).length := by
    simp [ofFrame]
  rw [hcommands, length_steps, Frame.known, turned]
  omega

end Plan

end SceneReel
