import SceneReel.Proofs.Timeline.Fresh

/-!
A declarative reading of frames: placing an object sets its value, moving sets it where there is one,
removing deletes it. Plans bring the children of a node to what their frames say, also in a new round,
which reads as if it began with nothing.
-/
namespace SceneReel

open SceneReel.Geometry

variable {α : Type}

/-- The value of an object after a command, from the one before. -/
def Command.readAt (value : Matrix → α) (id : ObjectId) (x : Option α) : Command → Option α
  | .place _ object _ m => if id = object then some (value m) else x
  | .move object m => if id = object then x.map fun _ => value m else x
  | .remove object => if id = object then none else x
  | .reorder _ _ => x
  | .setVisible _ _ => x

def Command.read (value : Matrix → α) (ρ : ObjectId → Option α) (c : Command) :
    ObjectId → Option α :=
  fun id => c.readAt value id (ρ id)

/-- The values of all objects after the commands of a frame; a command of unknown type does nothing. -/
def Frame.read (value : Matrix → α) (ρ : ObjectId → Option α) (f : Frame) : ObjectId → Option α :=
  f.known.foldl (Command.read value) ρ

/-- The matrices of all objects after some frames, from nothing. -/
def reference (frames : List Frame) : ObjectId → Option Matrix :=
  frames.foldl (Frame.read id) fun _ => none

/-- An object that the commands place has a value that does not depend on what was before. -/
theorem foldl_read_congr {value : Matrix → α} {ρ ρ' : ObjectId → Option α} (cs : List Command)
    (h : ∀ id, (∃ c ∈ cs, c.placed? = some id) ∨ ρ id = ρ' id) :
    cs.foldl (Command.read value) ρ = cs.foldl (Command.read value) ρ' := by
  induction cs generalizing ρ ρ' with
  | nil =>
    funext id
    simpa using h id
  | cons c cs ih =>
    refine ih fun id => ?_
    rcases h id with ⟨c', hc', hid⟩ | hid
    · rcases List.mem_cons.mp hc' with rfl | hc'
      · cases c' with
        | place char object before m =>
          cases hid
          simp [Command.read, Command.readAt]
        | _ => cases hid
      · exact .inl ⟨c', hc', hid⟩
    · exact .inr (by rw [Command.read, Command.read, hid])

theorem map_read {β : Type} (f : α → β) (value : Matrix → α) (ρ : ObjectId → Option α) (c : Command) :
    (fun id => (c.read value ρ id).map f) = c.read (f ∘ value) fun id => (ρ id).map f := by
  funext id
  cases c with
  | place char object before m =>
    simp only [Command.read, Command.readAt]
    split <;> rfl
  | move object m =>
    simp only [Command.read, Command.readAt]
    split <;> cases ρ id <;> rfl
  | remove object =>
    simp only [Command.read, Command.readAt]
    split <;> rfl
  | _ => rfl

theorem Frame.map_read {β : Type} (f : α → β) (value : Matrix → α) (ρ : ObjectId → Option α)
    (frame : Frame) :
    (fun id => (frame.read value ρ id).map f) = frame.read (f ∘ value) fun id => (ρ id).map f := by
  unfold Frame.read
  generalize frame.known = cs
  induction cs generalizing ρ with
  | nil => rfl
  | cons c cs ih => rw [List.foldl_cons, List.foldl_cons, ih, SceneReel.map_read]

def Command.entries (value : Matrix → α) : Staging (ObjectId × α) where
  id := Prod.fst
  move m x := (x.1, value m)
  setVisible _ x := x

theorem Command.respects_fst (value : Matrix → α) :
    Respects (fun x y => Prod.fst x = y) (entries value) ids where
  id := fun _ _ h => h
  move := fun _ _ _ h => h
  setVisible := fun _ _ _ h => h

/-- Siblings have ids of their own, and the values that a reading says. -/
structure Reads (ρ : ObjectId → Option α) (xs : List (ObjectId × α)) : Prop where
  nodup : (xs.map Prod.fst).Nodup
  mem_iff : ∀ id x, (id, x) ∈ xs ↔ ρ id = some x

namespace Reads

variable {value : Matrix → α} {ρ : ObjectId → Option α} {xs : List (ObjectId × α)}

theorem mem_keys_iff (h : Reads ρ xs) {id : ObjectId} :
    id ∈ xs.map Prod.fst ↔ ∃ x, ρ id = some x := by
  simp [← h.mem_iff]

theorem eq_none (h : Reads ρ xs) {id : ObjectId} (hid : id ∉ xs.map Prod.fst) : ρ id = none := by
  rw [h.mem_keys_iff, not_exists] at hid
  exact Option.eq_none_iff_forall_ne_some.mpr hid

theorem perm {ys : List (ObjectId × α)} (h : Reads ρ xs) (hp : ys.Perm xs) : Reads ρ ys :=
  ⟨(hp.map Prod.fst).nodup_iff.mpr h.nodup, fun id x => hp.mem_iff.trans (h.mem_iff id x)⟩

theorem place (h : Reads ρ xs) {char : CharId} {object : ObjectId} {before : Option ObjectId}
    {m : Matrix} (hnew : object ∉ xs.map Prod.fst) :
    Reads ((Command.place char object before m).read value ρ)
      ((Command.place char object before m).arrange (Command.entries value)
        (fun _ object m => (object, value m)) xs) := by
  have hcons : Reads ((Command.place char object before m).read value ρ)
      ((object, value m) :: xs) := by
    refine ⟨List.nodup_cons.mpr ⟨hnew, h.nodup⟩, fun id x => ?_⟩
    rw [List.mem_cons, h.mem_iff, Command.read, Command.readAt, Prod.mk.injEq]
    by_cases hid : id = object
    · subst hid
      simp [h.eq_none hnew, eq_comm]
    · simp [hid]
  exact hcons.perm (Siblings.insertBefore_perm Prod.fst _ before xs)

theorem move (h : Reads ρ xs) (object : ObjectId) (m : Matrix) :
    Reads ((Command.move object m).read value ρ)
      ((Command.move object m).arrange (Command.entries value)
        (fun _ object m => (object, value m)) xs) := by
  rw [Command.arrange]
  cases hu : updateFirst? ((Command.entries value).id · = object)
      (fun x => ((Command.entries value).move m x, ())) xs with
  | none =>
    have hout : object ∉ xs.map Prod.fst := by
      intro hin
      obtain ⟨x, hx, hid⟩ := List.mem_map.mp hin
      have hfalse := updateFirst?_eq_none_iff.mp hu x hx
      exact of_decide_eq_false hfalse hid
    refine ⟨h.nodup, fun id x => (h.mem_iff id x).trans ?_⟩
    rw [Command.read, Command.readAt]
    split
    · rw [‹id = object›, h.eq_none hout]
      rfl
    · rfl
  | some out =>
    obtain ⟨ys, u⟩ := out
    obtain ⟨pre, y, post, rfl, hy, -, rfl, -⟩ := updateFirst?_eq_some hu
    have hy : y.1 = object := of_decide_eq_true hy
    have hnodup := h.nodup
    have hvalue := (h.mem_iff y.1 y.2).mp (by simp)
    refine ⟨by simpa [Command.entries] using hnodup, fun id x => ?_⟩
    have hold := h.mem_iff id x
    simp only [List.map_append, List.map_cons, List.nodup_append, List.nodup_cons] at hnodup
    simp only [Option.map_some, Option.getD_some, Command.entries, List.mem_append, List.mem_cons,
      Prod.mk.injEq] at hold ⊢
    rw [Command.read, Command.readAt]
    by_cases hid : id = object
    · subst hid
      have hpre : (id, x) ∉ pre := fun hin =>
        hnodup.2.2 id (List.mem_map_of_mem hin) id (by simp [hy]) rfl
      have hpost : (id, x) ∉ post := fun hin =>
        hnodup.2.1.1 (hy.symm ▸ List.mem_map_of_mem hin)
      rw [if_pos rfl, ← hy, hvalue]
      simp [hpre, hpost, hy, eq_comm]
    · have hne : (id, x) ≠ y := fun he => hid (by rw [← hy, ← he])
      simpa [hid, hy, hne] using hold

theorem remove (h : Reads ρ xs) (object : ObjectId) :
    Reads ((Command.remove object).read value ρ)
      ((Command.remove object).arrange (Command.entries value)
        (fun _ object m => (object, value m)) xs) := by
  refine ⟨h.nodup.sublist (List.filter_sublist.map Prod.fst), fun id x => ?_⟩
  rw [Command.arrange, List.mem_filter, h.mem_iff, Command.read, Command.readAt]
  by_cases hid : id = object <;> simp [hid, Command.entries]

theorem command (h : Reads ρ xs) (c : Command)
    (hnew : ∀ id, c.placed? = some id → id ∉ xs.map Prod.fst) :
    Reads (c.read value ρ)
      (c.arrange (Command.entries value) (fun _ object m => (object, value m)) xs) := by
  cases c with
  | place char object before m => exact h.place (hnew object rfl)
  | move object m => exact h.move object m
  | remove object => exact h.remove object
  | reorder object before =>
    cases before with
    | none => exact h
    | some before => exact h.perm (Siblings.moveBefore?_getD_perm Prod.fst object before xs)
  | setVisible object visible =>
    have hsame : (Command.setVisible object visible).arrange (Command.entries value)
        (fun _ object m => (object, value m)) xs = xs :=
      (List.map_congr_left fun x _ => ite_self x).trans (List.map_id xs)
    rw [hsame]
    exact h

theorem map_fst_arrange (value : Matrix → α) (c : Command) (xs : List (ObjectId × α)) :
    (c.arrange (Command.entries value) (fun _ object m => (object, value m)) xs).map Prod.fst =
      c.idsAfter (xs.map Prod.fst) :=
  Command.map_arrange (Command.respects_fst value) c xs fun _ _ _ _ _ => rfl

theorem map_fst_arrangeAll (value : Matrix → α) (cs : List Command) (xs : List (ObjectId × α)) :
    (Command.arrangeAll (Command.entries value) (fun _ object m => (object, value m)) cs xs).map
      Prod.fst = Command.idsAfterAll (xs.map Prod.fst) cs := by
  induction cs generalizing xs with
  | nil => rfl
  | cons c cs ih =>
    rw [Command.idsAfterAll_cons, ← map_fst_arrange value c xs]
    exact ih _

theorem commands (value : Matrix → α) (h : Reads ρ xs) (cs : List Command)
    (hfresh : Command.Fresh (xs.map Prod.fst) cs) :
    Reads (cs.foldl (Command.read value) ρ) (Command.arrangeAll (Command.entries value)
      (fun _ object m => (object, value m)) cs xs) := by
  induction cs generalizing ρ xs with
  | nil => exact h
  | cons c cs ih =>
    have hfresh' := hfresh.2
    rw [← map_fst_arrange value c xs] at hfresh'
    exact ih (h.command c hfresh.1) hfresh'

/-- Moving and reordering an object that is there amounts to placing it. -/
theorem foldl_step (h : Reads ρ xs) {live : List ObjectId}
    (hlive : ∀ x, x ∈ live ↔ x ∈ xs.map Prod.fst) (c : Command) :
    (Plan.step live c).1.foldl (Command.read value) ρ = c.read value ρ := by
  cases c with
  | place char object before m =>
    rw [Plan.step]
    split
    · obtain ⟨x, hx⟩ := h.mem_keys_iff.mp ((hlive object).mp ‹_›)
      funext id
      simp only [List.foldl_cons, List.foldl_nil, Command.read, Command.readAt]
      split
      · rw [‹id = object›, hx]
        rfl
      · rfl
    · rfl
  | _ => rfl

theorem foldl_steps (h : Reads ρ xs) {live : List ObjectId}
    (hlive : ∀ x, x ∈ live ↔ x ∈ xs.map Prod.fst) (cs : List FrameCommand) :
    (Plan.steps live cs).foldl (Command.read value) ρ =
      (cs.filterMap FrameCommand.command?).foldl (Command.read value) ρ := by
  induction cs generalizing live ρ xs with
  | nil => rfl
  | cons c cs ih =>
    cases c with
    | unsupported type => exact ih h hlive
    | known c =>
      have hnext := h.commands value (Plan.step live c).1 (Plan.fresh_step hlive c)
      have hlive' := Plan.mem_step_iff hlive c
      rw [h.foldl_step hlive] at hnext
      rw [← map_fst_arrangeAll value] at hlive'
      rw [Plan.steps, List.foldl_append, h.foldl_step hlive]
      exact ih hnext hlive'

theorem foldl_removes (removed : List ObjectId) (ρ : ObjectId → Option α) :
    (removed.map Command.remove).foldl (Command.read value) ρ =
      fun id => if id ∈ removed then none else ρ id := by
  induction removed generalizing ρ with
  | nil => simp
  | cons object removed ih =>
    rw [List.map_cons, List.foldl_cons, ih]
    funext id
    simp only [Command.read, Command.readAt, List.mem_cons]
    by_cases hid : id = object <;> simp [hid]

/-- A frame does to the siblings what it says, in a new round as if there were none before. -/
theorem frame (value : Matrix → α) (h : Reads ρ xs) (frame : Frame) (looped : Bool) :
    Reads (frame.read value (if looped then fun _ => none else ρ))
      (Command.arrangeAll (Command.entries value) (fun _ object m => (object, value m))
        (Plan.ofFrame (xs.map Prod.fst) frame looped).commands xs) := by
  have hall := h.commands value _ (Plan.fresh_ofFrame (xs.map Prod.fst) frame looped)
  suffices hread : (Plan.ofFrame (xs.map Prod.fst) frame looped).commands.foldl
      (Command.read value) ρ = frame.read value (if looped then fun _ => none else ρ) by
    rwa [hread] at hall
  generalize hremoved : (if looped then Plan.undeclared frame (xs.map Prod.fst) else []) = removed
  have hlive := Plan.mem_live_iff (xs.map Prod.fst) frame looped
  rw [hremoved, ← map_fst_arrangeAll value] at hlive
  have hpruned := h.commands value (removed.map .remove) (Plan.fresh_removes removed)
  simp only [Plan.ofFrame, hremoved, List.foldl_append]
  rw [hpruned.foldl_steps hlive, foldl_removes]
  refine foldl_read_congr _ fun id => ?_
  cases looped with
  | false => simp [← hremoved]
  | true =>
    by_cases hid : frame.places id = true
    · exact .inl (Frame.places_iff.mp hid)
    · refine .inr ?_
      by_cases hin : id ∈ xs.map Prod.fst
      · have hpruned : id ∈ removed := by
          rw [← hremoved, if_pos rfl, Plan.mem_undeclared]
          exact ⟨hin, Bool.eq_false_iff.mpr hid⟩
        rw [if_pos hpruned, if_pos rfl]
      · rw [h.eq_none hin, ite_self, if_pos rfl]

end Reads

end SceneReel
