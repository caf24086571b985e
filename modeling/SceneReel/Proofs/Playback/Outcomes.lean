import SceneReel.Proofs.Playback.Arrange

/-!
The outcomes that commands report. An outcome depends on the ids of the children before the command, and
for a placement on whether the character resolves. What misses its object or a sibling changes nothing,
save that a placement adds its node all the same.
-/
namespace SceneReel.Command

def MissesObject (c : Command) (ids : List ObjectId) : Prop :=
  c.kind ≠ .place ∧ c.object ∉ ids

/-- The command names a sibling that is not there, for an object that it adds or that is there. -/
def MissesSibling (c : Command) (ids : List ObjectId) : Prop :=
  match c with
  | .place _ _ (some sibling) _ => sibling ∉ ids
  | .reorder object (some sibling) => object ∈ ids ∧ sibling ∉ ids
  | _ => False

/-- The command places a character that does not resolve, and misses no sibling. -/
def MissesCharacter (resolve : CharId → Option Resolved) (c : Command) (ids : List ObjectId) : Prop :=
  match c with
  | .place char _ before _ => resolve char = none ∧ ∀ sibling, before = some sibling → sibling ∈ ids
  | _ => False

section Misses

variable {resolve : CharId → Option Resolved} {c : Command} {ids : List ObjectId}

theorem MissesObject.not_missesSibling (h : c.MissesObject ids) : ¬ c.MissesSibling ids := by
  intro hs
  cases c with
  | place char object before m => exact h.1 rfl
  | reorder object before =>
    cases before with
    | none => exact hs
    | some sibling => exact h.2 hs.1
  | _ => exact hs

theorem MissesObject.not_missesCharacter (h : c.MissesObject ids) :
    ¬ c.MissesCharacter resolve ids := by
  intro hc
  cases c with
  | place char object before m => exact h.1 rfl
  | _ => exact hc

theorem MissesSibling.not_missesCharacter (h : c.MissesSibling ids) :
    ¬ c.MissesCharacter resolve ids := by
  intro hc
  cases c with
  | place char object before m =>
    cases before with
    | none => exact h
    | some sibling => exact h (hc.2 sibling rfl)
  | _ => exact hc

end Misses

variable {s : Setting} {player : Player} {owner : Handle} {target : Node} {run : Run} {c : Command}

theorem contains_iff_mem {id : ObjectId} : target.contains id = true ↔ id ∈ target.childIds :=
  Siblings.contains_iff_mem_map

theorem execute_of_missesObject (h : c.MissesObject target.childIds) :
    c.execute s player owner target run = (.lookupMiss, target, run) := by
  obtain ⟨hkind, habsent⟩ := h
  have hne : ∀ n ∈ target.children, n.id ≠ c.object :=
    fun n hn hid => habsent (List.mem_map.mpr ⟨n, hn, hid⟩)
  have hnot : ¬ target.contains c.object = true := mt contains_iff_mem.mp habsent
  cases c with
  | place char object before m => exact absurd rfl hkind
  | move object m =>
    have hnone : target.updateChild? (·.id = object)
        (fun n => ({ n with transform := m.decompose }, ())) = none :=
      Option.map_eq_none_iff.mpr
        (updateFirst?_eq_none_iff.mpr fun n hn => decide_eq_false (hne n hn))
    simp only [execute, hnone]
  | remove object =>
    have hnil : target.children.filter (·.id = object) = [] :=
      List.filter_eq_nil_iff.mpr fun n hn he => hne n hn (of_decide_eq_true he)
    simp only [execute, Node.removeAll_eq, hnil]
  | reorder object before => exact if_neg hnot
  | setVisible object visible => exact if_neg hnot

theorem execute_of_missesSibling (hkind : c.kind ≠ .place) (h : c.MissesSibling target.childIds) :
    c.execute s player owner target run = (.siblingMiss, target, run) := by
  cases c with
  | place char object before m => exact absurd rfl hkind
  | reorder object before =>
    cases before with
    | none => exact h.elim
    | some sibling =>
      have hobject : target.contains object = true := contains_iff_mem.mpr h.1
      have hsibling : ¬ target.contains sibling = true := mt contains_iff_mem.mp h.2
      simp only [execute, if_pos hobject, if_neg hsibling]
  | _ => exact h.elim

theorem outcome_place (char : CharId) (object : ObjectId) (before : Option ObjectId)
    (m : Geometry.Matrix) :
    ((Command.place char object before m).execute s player owner target run).1 =
      placeOutcome (s.resolve char) before target := by
  simp only [execute]

/-- A placement that names a sibling which is not there reports that, whatever it places. -/
theorem outcome_place_of_missesSibling {char : CharId} {object : ObjectId}
    {before : Option ObjectId} {m : Geometry.Matrix}
    (h : (Command.place char object before m).MissesSibling target.childIds) :
    ((Command.place char object before m).execute s player owner target run).1 = .siblingMiss := by
  rw [outcome_place]
  cases before with
  | none => exact h.elim
  | some sibling =>
    have hsibling : target.contains sibling = false :=
      Bool.eq_false_iff.mpr (mt contains_iff_mem.mp h)
    simp only [placeOutcome, Option.any_some, hsibling, Bool.not_false, if_true]

theorem outcome_place_of_not_missesSibling {char : CharId} {object : ObjectId}
    {before : Option ObjectId} {m : Geometry.Matrix}
    (h : ¬ (Command.place char object before m).MissesSibling target.childIds) :
    ((Command.place char object before m).execute s player owner target run).1 =
        (if s.resolve char = none then .unresolved else .applied) ∧
      ∀ sibling, before = some sibling → sibling ∈ target.childIds := by
  have hthere : ∀ sibling, before = some sibling → sibling ∈ target.childIds := by
    rintro sibling rfl
    by_contra habsent
    exact h habsent
  have hany : (before.any fun sibling => !target.contains sibling) = false := by
    cases before with
    | none => rfl
    | some sibling =>
      rw [Option.any_some, contains_iff_mem.mpr (hthere sibling rfl)]
      rfl
  refine ⟨?_, hthere⟩
  rw [outcome_place, placeOutcome, hany]
  cases s.resolve char <;> rfl

theorem outcome_of_hit (hobject : ¬ c.MissesObject target.childIds)
    (hsibling : ¬ c.MissesSibling target.childIds)
    (hcharacter : ¬ c.MissesCharacter s.resolve target.childIds) :
    (c.execute s player owner target run).1 = .applied := by
  have hthere : c.kind ≠ .place → c.object ∈ target.childIds := by
    intro hkind
    by_contra habsent
    exact hobject ⟨hkind, habsent⟩
  cases c with
  | place char object before m =>
    obtain ⟨houtcome, hbefore⟩ := outcome_place_of_not_missesSibling hsibling
    rw [houtcome, if_neg]
    exact fun hnone => hcharacter ⟨hnone, hbefore⟩
  | move object m =>
    exact outcome_move s player owner run (hthere fun h => CommandKind.noConfusion h) m
  | remove object =>
    exact outcome_remove s player owner run (hthere fun h => CommandKind.noConfusion h)
  | reorder object before =>
    have hin : object ∈ target.childIds := hthere fun h => CommandKind.noConfusion h
    have hpos : target.contains object = true := contains_iff_mem.mpr hin
    cases before with
    | none => simp only [execute, if_pos hpos]
    | some sibling =>
      have hfound : target.contains sibling = true := by
        by_contra hnot
        exact hsibling ⟨hin, mt contains_iff_mem.mpr hnot⟩
      simp only [execute, if_pos hpos, if_pos hfound]
  | setVisible object visible =>
    have hin : object ∈ target.childIds := hthere fun h => CommandKind.noConfusion h
    simp only [execute, if_pos (contains_iff_mem.mpr hin)]

/-- The outcome, by what the command misses first. -/
theorem outcome_cases (s : Setting) (player : Player) (owner : Handle) (c : Command) (target : Node)
    (run : Run) :
    (c.MissesObject target.childIds ∧ (c.execute s player owner target run).1 = .lookupMiss) ∨
    (c.MissesSibling target.childIds ∧ (c.execute s player owner target run).1 = .siblingMiss) ∨
    (c.MissesCharacter s.resolve target.childIds ∧
      (c.execute s player owner target run).1 = .unresolved) ∨
    (¬ c.MissesObject target.childIds ∧ ¬ c.MissesSibling target.childIds ∧
      ¬ c.MissesCharacter s.resolve target.childIds ∧
      (c.execute s player owner target run).1 = .applied) := by
  by_cases hobject : c.MissesObject target.childIds
  · exact .inl ⟨hobject, by rw [execute_of_missesObject hobject]⟩
  by_cases hsibling : c.MissesSibling target.childIds
  · refine .inr (.inl ⟨hsibling, ?_⟩)
    by_cases hkind : c.kind = .place
    · cases c with
      | place char object before m => exact outcome_place_of_missesSibling hsibling
      | _ => cases hkind
    · rw [execute_of_missesSibling hkind hsibling]
  by_cases hcharacter : c.MissesCharacter s.resolve target.childIds
  · refine .inr (.inr (.inl ⟨hcharacter, ?_⟩))
    cases c with
    | place char object before m =>
      rw [(outcome_place_of_not_missesSibling hsibling).1, if_pos hcharacter.1]
    | _ => exact hcharacter.elim
  · exact .inr (.inr (.inr ⟨hobject, hsibling, hcharacter, outcome_of_hit hobject hsibling hcharacter⟩))

/-- What does not take effect changes nothing, unless it is a placement. -/
theorem execute_of_not_applied (hkind : c.kind ≠ .place)
    (hmiss : (c.execute s player owner target run).1 ≠ .applied) :
    (c.execute s player owner target run).2 = (target, run) := by
  rcases outcome_cases s player owner c target run with
    ⟨hobject, -⟩ | ⟨hsibling, -⟩ | ⟨hcharacter, -⟩ | ⟨-, -, -, happlied⟩
  · rw [execute_of_missesObject hobject]
  · rw [execute_of_missesSibling hkind hsibling]
  · cases c with
    | place char object before m => exact absurd rfl hkind
    | _ => exact hcharacter.elim
  · exact absurd happlied hmiss

/-- A command reports the first thing that it misses, and what misses something changes nothing, unless
it is a placement. -/
theorem execute_outcome (s : Setting) (player : Player) (owner : Handle) (c : Command) (target : Node)
    (run : Run) :
    let outcome := (c.execute s player owner target run).1
    (outcome = .lookupMiss ↔ c.MissesObject target.childIds) ∧
    (outcome = .siblingMiss ↔ c.MissesSibling target.childIds) ∧
    (outcome = .unresolved ↔ c.MissesCharacter s.resolve target.childIds) ∧
    (outcome = .applied ↔ ¬ c.MissesObject target.childIds ∧ ¬ c.MissesSibling target.childIds ∧
      ¬ c.MissesCharacter s.resolve target.childIds) ∧
    (c.kind ≠ .place → outcome ≠ .applied →
      (c.execute s player owner target run).2 = (target, run) ∧
      ∀ cs, executeAll s player owner (c :: cs) target run =
        executeAll s player owner cs target
          (run.emit (.command owner c.kind c.object outcome))) := by
  intro outcome
  have hcases := outcome_cases s player owner c target run
  have hobject : c.MissesObject target.childIds → ¬ c.MissesSibling target.childIds :=
    MissesObject.not_missesSibling
  have hother : c.MissesObject target.childIds → ¬ c.MissesCharacter s.resolve target.childIds :=
    MissesObject.not_missesCharacter
  have hsibling : c.MissesSibling target.childIds → ¬ c.MissesCharacter s.resolve target.childIds :=
    MissesSibling.not_missesCharacter
  refine ⟨?_, ?_, ?_, ?_, fun hkind hmiss => ?_⟩
  · grind
  · grind
  · grind
  · grind
  · have hquiet := execute_of_not_applied hkind hmiss
    refine ⟨hquiet, fun cs => ?_⟩
    have hstep : executeAll s player owner (c :: cs) target run =
        executeAll s player owner cs (c.execute s player owner target run).2.1
          ((c.execute s player owner target run).2.2.emit
            (.command owner c.kind c.object outcome)) := rfl
    rw [hstep, hquiet]

end SceneReel.Command
