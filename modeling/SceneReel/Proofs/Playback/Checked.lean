import SceneReel.Proofs.Display.Positions
import SceneReel.Proofs.Fallible
import SceneReel.Proofs.Playback.Cast

/-!
Playback that checks each index before it uses it, be it of a slot or of a child, and gives nothing where
one is out of bounds. Where the checks succeed it is playback.
-/
namespace SceneReel

/-- Gives a new animator a slot, if that is one of the arena. -/
def Arena.alloc? (a : Arena) (timeline : Timeline) (parent : Option Handle) (depth : Nat) :
    Option (Handle × Arena) :=
  match a.free with
  | index :: _ =>
    if index.toNat < a.slots.size then some (a.alloc timeline parent depth) else none
  | [] => some (a.alloc timeline parent depth)

theorem Arena.Stored.alloc?_eq {a : Arena} (hs : a.Stored) (t : Timeline) (p : Option Handle)
    (d : Nat) : a.alloc? t p d = some (a.alloc t p d) := by
  unfold Arena.alloc?
  cases hf : a.free with
  | nil => rfl
  | cons i free =>
    obtain ⟨g, hg⟩ := (hs.mem_free_iff i).mp (hf ▸ List.mem_cons_self)
    exact if_pos (Array.getElem?_eq_some_iff.mp hg).1

/-- Advances an animator on the node that hosts it, or stops at some run. -/
abbrev Attempt := Handle → Node → Run → Except Run (Node × Run)

/-- Stops at a run if something is missing that is needed. -/
def Run.need {α : Type} (run : Run) : Option α → Except Run α
  | some x => .ok x
  | none => .error run

theorem Run.need_some_bind {α β : Type} (run : Run) (x : α) (f : α → Except Run β) :
    (run.need (some x) >>= f) = f x := rfl

/-- The run at the end, or where it stopped. -/
def lastRun : Except Run (Node × Run) → Run
  | .ok out => out.2
  | .error run => run

def spawn? (s : Setting) (player : Attempt) (owner : Handle) (char : CharId) (timeline : Timeline)
    (position : Nat) (target : Node) (run : Run) : Except Run (Node × Run) := do
  let node ← run.need target.children[position]?
  let depth := run.spawnDepth owner
  if s.options.maxNestingDepth < depth then
    .ok (target, run.emit (.nestingLimit owner node.id depth))
  else do
    let (child, arena) ← run.need (run.arena.alloc? timeline (some owner) depth)
    let arena := arena.modify owner fun x => { x with children := x.children ++ [child] }
    let (node, run) ← player child { node with kind := .clip char (some child) }
      ({ run with arena }.emit (.spawn owner child node.id char))
    .ok (target.modifyChildAt position fun _ => node, run)

namespace Command

/-- Executes a command position by position, and reports it. Only these commands use positions. -/
def perform? (s : Setting) (player : Attempt) (owner : Handle) (c : Command) (target : Node)
    (run : Run) : Except Run (Node × Run) :=
  let report (run : Run) (outcome : Outcome) := run.emit (.command owner c.kind c.object outcome)
  match c with
  | .place char object before matrix => do
    let resolved := s.resolve char
    let fresh : Node :=
      { id := object, kind := .ofResolved char resolved, transform := matrix.decompose }
    let outcome := placeOutcome resolved before target
    let (position, children) ← run.need (Siblings.insertBefore? Node.id fresh before target.children)
    let target := { target with children }
    match resolved with
    | some (.timeline timeline) => do
      let (target, run) ← spawn? s player owner char timeline position target run
      .ok (target, report run outcome)
    | _ => .ok (target, report run outcome)
  | .remove object => do
    let (removed, children) ← run.need (Siblings.removeFrom? Node.id object 0 target.children)
    if removed.isEmpty then .ok (target, report run .lookupMiss)
    else .ok ({ target with children },
      report ((removed.filterMap Node.animator?).foldl (Run.retire · .removed) run) .applied)
  | .reorder object (some sibling) =>
    if target.contains object then
      if target.contains sibling then do
        let moved ← run.need (Siblings.relocate? Node.id object sibling target.children)
        .ok ({ target with children := moved.getD target.children }, report run .applied)
      else .ok (target, report run .siblingMiss)
    else .ok (target, report run .lookupMiss)
  | c =>
    let (outcome, target, run) := c.execute s idle owner target run
    .ok (target, report run outcome)

def performAll? (s : Setting) (player : Attempt) (owner : Handle) :
    List Command → Node → Run → Except Run (Node × Run)
  | [], target, run => .ok (target, run)
  | c :: cs, target, run => do
    let (target, run) ← c.perform? s player owner target run
    performAll? s player owner cs target run

end Command

def playChildren? (s : Setting) (player : Attempt) :
    List Handle → Node → Run → Except Run (Node × Run)
  | [], target, run => .ok (target, run)
  | h :: hs, target, run =>
    match target.updateChild? (·.animator? = some h) fun c =>
        match player h c run with
        | .ok (c, run) => (c, Except.ok run)
        | .error run => (c, .error run) with
    | some (target, .ok run) => playChildren? s player hs target run
    | some (_, .error run) => .error run
    | none =>
      playChildren? s player hs target
        (if s.options.retireDetached then run.retire .detached h else run)

def playFrame? (s : Setting) (player : Attempt) (h : Handle) (timeline : Timeline) (target : Node)
    (run : Run) : Except Run (Node × Run) :=
  match run.arena.get? h with
  | none => .ok (target, run)
  | some x =>
    let looped := x.cursor == timeline.frameCount
    let number := if looped then 0 else x.cursor
    let run := run.seek h number
    match timeline.frames[number]? with
    | none => .ok (target, run)
    | some frame => do
      let plan := Plan.ofFrame target.childIds frame looped
      let (target, run) ← Command.performAll? s player h plan.commands target
        (run.emit (.frame (plan.report h number looped)))
      .ok (target, run.advance h)

def playStep? (s : Setting) (player : Attempt) : Attempt := fun h target run =>
  match run.arena.get? h with
  | none => .ok (target, run)
  | some x =>
    if x.timeline.frameCount = 0 then .ok (target, run)
    else do
      let (target, run) ← playChildren? s player x.children target run
      playFrame? s player h x.timeline target run

def playChain? (s : Setting) (innermost : Attempt) : Nat → Attempt
  | 0 => innermost
  | n + 1 => playStep? s (playChain? s innermost n)

section Ticking

variable {s : Setting} {q : Attempt} {h : Handle} {t : Timeline} {x : Animation} {n : Node} {r : Run}

theorem playFrame?_of_dead (hx : r.arena.get? h = none) : playFrame? s q h t n r = .ok (n, r) := by
  rw [playFrame?, hx]

theorem playFrame?_of_none (hx : r.arena.get? h = some x)
    (hframe : t.frames[if x.cursor = t.frameCount then 0 else x.cursor]? = none) :
    playFrame? s q h t n r = .ok (n, r.seek h (if x.cursor = t.frameCount then 0 else x.cursor)) := by
  simp only [playFrame?, hx, beq_iff_eq, hframe]

theorem playFrame?_eq_bind {frame : Frame} (hx : r.arena.get? h = some x)
    (hframe : t.frames[if x.cursor = t.frameCount then 0 else x.cursor]? = some frame) :
    playFrame? s q h t n r =
      let number := if x.cursor = t.frameCount then 0 else x.cursor
      let looped := x.cursor == t.frameCount
      let plan := Plan.ofFrame n.childIds frame looped
      Command.performAll? s q h plan.commands n
          ((r.seek h number).emit (.frame (plan.report h number looped))) >>= fun out =>
        .ok (out.1, out.2.advance h) := by
  simp only [playFrame?, hx, beq_iff_eq, hframe]

theorem playStep?_eq_self
    (hstill : ∀ x, r.arena.get? h = some x → x.timeline.frameCount = 0) :
    playStep? s q h n r = .ok (n, r) := by
  unfold playStep?
  cases hx : r.arena.get? h with
  | none => rfl
  | some x => simp only [hstill x hx, if_true]

theorem playStep?_eq_bind (hx : r.arena.get? h = some x)
    (hcount : x.timeline.frameCount ≠ 0) :
    playStep? s q h n r = playChildren? s q x.children n r >>= fun out =>
      playFrame? s q h x.timeline out.1 out.2 := by
  simp only [playStep?, hx, hcount, if_false]

end Ticking

section Success

variable {s : Setting} {q : Attempt} {p : Player} {h owner : Handle} {n : Node} {r : Run}

/-- The clip that a command starts, if it does start one, is played with success. -/
def Attempt.Starts (s : Setting) (q : Attempt) (p : Player) (owner : Handle) (r : Run)
    (c : Command) : Prop :=
  ∀ char object before m t, c = .place char object before m →
    s.resolve char = some (.timeline t) → r.spawnDepth owner ≤ s.options.maxNestingDepth →
    let child := (r.arena.spawn t owner (r.spawnDepth owner)).1
    let clip : Node := { id := object, kind := .clip char (some child), transform := m.decompose }
    let start := r.start t owner (r.spawnDepth owner) object char
    q child clip start = .ok (p child clip start)

/-- A clip that is placed before a sibling, and started if it is not too deep, takes its position when
it has played. -/
theorem perform?_place (hs : r.arena.Stored) {char : CharId} {t : Timeline}
    (hchar : s.resolve char = some (.timeline t))
    (hd : r.spawnDepth owner ≤ s.options.maxNestingDepth) (object : ObjectId)
    (before : Option ObjectId) (m : Geometry.Matrix) :
    (Command.place char object before m).perform? s q owner n r = (do
      let child := (r.arena.spawn t owner (r.spawnDepth owner)).1
      let (node, run) ← q child
        { id := object, kind := .clip char (some child), transform := m.decompose }
        (r.start t owner (r.spawnDepth owner) object char)
      .ok ((n.insertBefore node before).2, run.emit
        (.command owner .place object (Command.placeOutcome (s.resolve char) before n)))) := by
  simp only [Command.perform?, Siblings.insertBefore?_eq, Run.need_some_bind, hchar, spawn?,
    Siblings.getElem?_insertBefore, Nat.not_lt.mpr hd, if_false, hs.alloc?_eq]
  change (q (r.arena.spawn t owner (r.spawnDepth owner)).1
    { id := object, kind := .clip char (some (r.arena.spawn t owner (r.spawnDepth owner)).1),
      transform := m.decompose } (r.start t owner (r.spawnDepth owner) object char) >>= _) >>= _ = _
  cases q _ { id := object, kind := .clip char _, transform := m.decompose } _ with
  | error r' => rfl
  | ok out =>
    change Except.ok _ = Except.ok _
    rw [Node.modifyChildAt, Siblings.modify_insertBefore]
    rfl

/-- A command succeeds where the clip that it starts does. -/
theorem perform?_eq (hs : r.arena.Stored) {c : Command} (hq : q.Starts s p owner r c) :
    c.perform? s q owner n r = .ok ((c.execute s p owner n r).2.1,
      (c.execute s p owner n r).2.2.emit
        (.command owner c.kind c.object (c.execute s p owner n r).1)) := by
  cases c with
  | place char object before m =>
    cases hchar : s.resolve char with
    | none =>
      simp only [Command.perform?, Command.execute, Siblings.insertBefore?_eq, hchar]
      rfl
    | some v =>
      cases v with
      | timeline t =>
        by_cases hd : s.options.maxNestingDepth < r.spawnDepth owner
        · simp only [Command.perform?, Command.execute, Siblings.insertBefore?_eq,
            Run.need_some_bind, hchar, spawn?, Siblings.getElem?_insertBefore, spawn_of_lt hd, hd,
            if_true]
          rfl
        · have hd := Nat.le_of_not_lt hd
          rw [perform?_place hs hchar hd]
          dsimp only
          rw [hq char object before m t rfl hchar hd]
          simp only [Command.execute, hchar, spawn_of_le hd]
          rfl
      | _ =>
        simp only [Command.perform?, Command.execute, Siblings.insertBefore?_eq, hchar]
        rfl
  | remove object =>
    simp only [Command.perform?, Command.execute, Node.removeAll, Siblings.removeFrom?_eq]
    generalize Siblings.extract Node.id object n.children = out
    obtain ⟨removed, kept⟩ := out
    cases removed <;> rfl
  | reorder object before =>
    cases before with
    | none => rfl
    | some sibling =>
      simp only [Command.perform?, Command.execute, Node.moveBefore?, Siblings.relocate?_eq]
      generalize Siblings.moveBefore? Node.id object sibling n.children = moved
      split
      · split
        · cases moved with
          | none => cases n; rfl
          | some children => rfl
        · rfl
      · rfl
  | move object m => rfl
  | setVisible object visible => rfl

theorem performAll?_cons (hs : r.arena.Stored) {c : Command} (cs : List Command)
    (hq : q.Starts s p owner r c) :
    Command.performAll? s q owner (c :: cs) n r =
      Command.performAll? s q owner cs (c.execute s p owner n r).2.1
        ((c.execute s p owner n r).2.2.emit
          (.command owner c.kind c.object (c.execute s p owner n r).1)) := by
  rw [Command.performAll?, perform?_eq hs hq]
  rfl

theorem playChildren?_of_animated (s : Setting) {g : Handle} {c : Node}
    (hc : n.animatedChild? g = some c) :
    ∃ pre post, n.children = pre ++ c :: post ∧ c.animator? = some g ∧
      ∀ (p : Player) (q : Attempt) (gs : List Handle) (r : Run),
      playChildren s p (g :: gs) n r =
        playChildren s p gs { n with children := pre ++ (p g c r).1 :: post } (p g c r).2 ∧
      playChildren? s q (g :: gs) n r = (do
        let (c', run) ← q g c r
        playChildren? s q gs { n with children := pre ++ c' :: post } run) := by
  obtain ⟨pre, post, hcs, hg, hupdate⟩ := Node.updateChild?_of_animated hc
  refine ⟨pre, post, hcs, hg, fun p q gs r => ⟨?_, ?_⟩⟩
  · rw [playChildren, hupdate]
  · rw [playChildren?, hupdate]
    cases q g c r <;> rfl

theorem playChildren?_of_not_animated (s : Setting) {g : Handle} (hc : n.animatedChild? g = none)
    (p : Player) (q : Attempt) (gs : List Handle) (r : Run) :
    let next := if s.options.retireDetached then r.retire .detached g else r
    playChildren s p (g :: gs) n r = playChildren s p gs n next ∧
      playChildren? s q (g :: gs) n r = playChildren? s q gs n next := by
  have hnone : ∀ {α : Type} (f : Node → Node × α),
      n.updateChild? (·.animator? = some g) f = none := by
    intro α f
    rw [Node.updateChild?_eq_none_iff]
    intro c hin
    exact Bool.eq_false_iff.mpr (List.find?_eq_none.mp hc c hin)
  rw [playChildren, playChildren?, hnone, hnone]
  exact ⟨rfl, rfl⟩

/-- The run at which a first part ends or stops is no later than that of the whole. -/
theorem later_lastRun_bind {x : Except Run (Node × Run)} {f : Node × Run → Except Run (Node × Run)}
    (hf : ∀ out, Run.Later out.2 (lastRun (f out))) :
    Run.Later (lastRun x) (lastRun (x >>= f)) := by
  cases x with
  | error r => exact .refl r
  | ok out => exact hf out

theorem playFrame?_eq {t : Timeline} (hall : ∀ number looped (plan : Plan),
      let start := (r.seek h number).emit (.frame (plan.report h number looped))
      let out := Command.performAll? s q h plan.commands n start
      Run.Later (lastRun out) (lastRun (playFrame? s q h t n r)) →
      out = .ok (Command.executeAll s p h plan.commands n start)) :
    playFrame? s q h t n r = .ok (playFrame s p h t n r) := by
  cases hx : r.arena.get? h with
  | none => rw [playFrame?_of_dead hx, playFrame_of_dead s p hx]
  | some x =>
    cases hframe : t.frames[if x.cursor = t.frameCount then 0 else x.cursor]? with
    | none => rw [playFrame?_of_none hx hframe, playFrame_of_none s p hx hframe]
    | some frame =>
      rw [playFrame?_eq_bind hx hframe] at hall ⊢
      dsimp only at hall ⊢
      rw [playFrame_eq s p hx hframe, hall _ _ _ (later_lastRun_bind fun out =>
        (Run.keeps_later s out.2).advance (.refl out.2) h)]
      rfl

theorem playStep?_of_still
    (hstill : ∀ x, r.arena.get? h = some x → x.timeline.frameCount = 0) :
    playStep? s q h n r = .ok (playStep s p h n r) := by
  rw [playStep?_eq_self hstill]
  cases hx : r.arena.get? h with
  | none => rw [playStep_of_dead s p hx]
  | some x => rw [playStep_of_empty s p hx (hstill x hx)]

theorem playStep?_of_live {x : Animation} (hx : r.arena.get? h = some x)
    (hcount : x.timeline.frameCount ≠ 0)
    (hchildren : playChildren? s q x.children n r = .ok (playChildren s p x.children n r))
    (hframe : let between := playChildren s p x.children n r
      playFrame? s q h x.timeline between.1 between.2 =
        .ok (playFrame s p h x.timeline between.1 between.2)) :
    playStep? s q h n r = .ok (playStep s p h n r) := by
  rw [playStep?_eq_bind hx hcount, hchildren, playStep_eq s p hx hcount]
  exact hframe

end Success

section Keeping

/-- Attempts do not break a property of runs, where they end or where they stop. -/
def Attempt.Keeps (P : Run → Prop) (q : Attempt) : Prop :=
  ∀ h n {r}, P r → P (lastRun (q h n r))

variable {s : Setting} {q : Attempt} {P : Run → Prop} {n : Node} {r : Run}

theorem lastRun_bind {x : Except Run (Node × Run)} {f : Node × Run → Except Run (Node × Run)}
    (hx : P (lastRun x)) (hf : ∀ out, P out.2 → P (lastRun (f out))) : P (lastRun (x >>= f)) := by
  cases x with
  | error r => exact hx
  | ok out => exact hf out hx

theorem lastRun_need_bind {α : Type} {x : Option α} {f : α → Except Run (Node × Run)} (hr : P r)
    (hf : ∀ a, x = some a → P (lastRun (f a))) : P (lastRun (r.need x >>= f)) := by
  cases x with
  | none => exact hr
  | some a => exact hf a rfl

theorem spawn?_keeps (hs : s.Keeps P) (hq : q.Keeps P) (owner : Handle) {char : CharId}
    {t : Timeline} (hchar : s.resolve char = some (.timeline t)) (position : Nat) (n : Node)
    (hr : P r) : P (lastRun (spawn? s q owner char t position n r)) := by
  refine lastRun_need_bind hr fun node _ => ?_
  dsimp only
  split
  · exact hs.emit hr rfl
  · refine lastRun_need_bind hr fun out hout => ?_
    have halloc : out = r.arena.alloc t (some owner) (r.spawnDepth owner) := by
      unfold Arena.alloc? at hout
      split at hout
      · split at hout
        · exact (Option.some.inj hout).symm
        · cases hout
      · exact (Option.some.inj hout).symm
    subst halloc
    exact lastRun_bind (hq _ _ (hs.start hr hchar owner node.id)) fun out hout => hout

theorem perform?_keeps (hs : s.Keeps P) (hq : q.Keeps P) (owner : Handle) (c : Command) (n : Node)
    (hr : P r) : P (lastRun (c.perform? s q owner n r)) := by
  have hstill : ∀ c : Command, c.settle s idle owner n r = r →
      P (c.execute s idle owner n r).2.2 := by
    intro c hc
    rw [Command.execute_eq, hc]
    exact hr
  cases c with
  | place char object before m =>
    refine lastRun_need_bind hr fun out _ => ?_
    dsimp only
    cases hchar : s.resolve char with
    | none => exact hs.emit hr rfl
    | some v =>
      cases v with
      | timeline t =>
        exact lastRun_bind (spawn?_keeps hs hq owner hchar _ _ hr) fun out hout => hs.emit hout rfl
      | _ => exact hs.emit hr rfl
  | remove object =>
    refine lastRun_need_bind hr fun out _ => ?_
    dsimp only
    split
    · exact hs.emit hr rfl
    · exact hs.emit (retireAll_keeps hs _ _ hr) rfl
  | reorder object before =>
    cases before with
    | none => exact hs.emit (hstill (.reorder object none) rfl) rfl
    | some sibling =>
      unfold Command.perform?
      dsimp only
      split
      · split
        · exact lastRun_need_bind hr fun moved _ => hs.emit hr rfl
        · exact hs.emit hr rfl
      · exact hs.emit hr rfl
  | move object m => exact hs.emit (hstill (.move object m) rfl) rfl
  | setVisible object visible => exact hs.emit (hstill (.setVisible object visible) rfl) rfl

theorem performAll?_keeps (hs : s.Keeps P) (hq : q.Keeps P) (owner : Handle) (cs : List Command)
    (n : Node) (hr : P r) : P (lastRun (Command.performAll? s q owner cs n r)) := by
  induction cs generalizing n r with
  | nil => exact hr
  | cons c cs ih =>
    exact lastRun_bind (perform?_keeps hs hq owner c n hr) fun out hout => ih out.1 hout

theorem playChildren?_keeps (hs : s.Keeps P) (hq : q.Keeps P) (gs : List Handle) (n : Node)
    (hr : P r) : P (lastRun (playChildren? s q gs n r)) := by
  induction gs generalizing n r with
  | nil => exact hr
  | cons g gs ih =>
    cases hc : n.animatedChild? g with
    | none =>
      rw [(playChildren?_of_not_animated s hc idle q gs r).2]
      refine ih n ?_
      split
      · exact hs.retire hr .detached g
      · exact hr
    | some c =>
      obtain ⟨pre, post, -, -, hplay⟩ := playChildren?_of_animated s hc
      rw [(hplay idle q gs r).2]
      exact lastRun_bind (hq g c hr) fun out hout => ih _ hout

theorem playFrame?_keeps (hs : s.Keeps P) (hq : q.Keeps P) (h : Handle) (t : Timeline) (n : Node)
    (hr : P r) : P (lastRun (playFrame? s q h t n r)) := by
  cases hx : r.arena.get? h with
  | none =>
    rw [playFrame?_of_dead hx]
    exact hr
  | some x =>
    cases hframe : t.frames[if x.cursor = t.frameCount then 0 else x.cursor]? with
    | none =>
      rw [playFrame?_of_none hx hframe]
      exact hs.seek hr h _
    | some frame =>
      rw [playFrame?_eq_bind hx hframe]
      exact lastRun_bind (performAll?_keeps hs hq h _ n (hs.emit (hs.seek hr h _) rfl))
        fun out hout => hs.advance hout h

theorem playStep?_keeps (hs : s.Keeps P) (hq : q.Keeps P) : (playStep? s q).Keeps P := by
  intro h n r hr
  by_cases hstill : ∀ x, r.arena.get? h = some x → x.timeline.frameCount = 0
  · rw [playStep?_eq_self hstill]
    exact hr
  · push Not at hstill
    obtain ⟨x, hx, hcount⟩ := hstill
    rw [playStep?_eq_bind hx hcount]
    exact lastRun_bind (playChildren?_keeps hs hq _ n hr)
      fun out hout => playFrame?_keeps hs hq h _ out.1 hout

theorem playChain?_keeps (hs : s.Keeps P) (hq : q.Keeps P) (n : Nat) :
    (playChain? s q n).Keeps P := by
  induction n with
  | zero => exact hq
  | succ n ih => exact playStep?_keeps hs ih

end Keeping

section Preceding

/-- An attempt has no other success than another, and where it stops it is at an earlier point of it. -/
structure Precedes (x x' : Except Run (Node × Run)) : Prop where
  ok : ∀ {out}, x = .ok out → x' = .ok out
  later : Run.Later (lastRun x) (lastRun x')

theorem Precedes.refl (x : Except Run (Node × Run)) : Precedes x x :=
  ⟨fun hx => hx, .refl _⟩

theorem Precedes.bind {x x' : Except Run (Node × Run)}
    {f f' : Node × Run → Except Run (Node × Run)} (hx : Precedes x x')
    (hf : ∀ out, Precedes (f out) (f' out)) (hlater : ∀ out, Run.Later out.2 (lastRun (f' out))) :
    Precedes (x >>= f) (x' >>= f') := by
  cases x with
  | error r => exact ⟨nofun, hx.later.trans (later_lastRun_bind hlater)⟩
  | ok out =>
    rw [hx.ok rfl]
    exact hf out

theorem Precedes.need {α : Type} (r : Run) {x : Option α} {f f' : α → Except Run (Node × Run)}
    (hf : ∀ a, Precedes (f a) (f' a)) : Precedes (r.need x >>= f) (r.need x >>= f') := by
  cases x with
  | none => exact .refl _
  | some a => exact hf a

def Attempt.Precedes (q q' : Attempt) : Prop :=
  ∀ h n r, SceneReel.Precedes (q h n r) (q' h n r)

/-- Attempts never go back to an earlier point of a run. -/
def Attempt.Proceeds (q : Attempt) : Prop :=
  ∀ r, q.Keeps (Run.Later r)

variable {s : Setting} {q q' : Attempt}

theorem spawn?_precedes (hq : q.Precedes q') (owner : Handle) (char : CharId) (t : Timeline)
    (position : Nat) (n : Node) (r : Run) :
    Precedes (spawn? s q owner char t position n r) (spawn? s q' owner char t position n r) := by
  refine .need r fun node => ?_
  dsimp only
  split
  · exact .refl _
  · exact .need r fun out => .bind (hq _ _ _) (fun _ => .refl _) fun out => .refl out.2

theorem perform?_precedes (hq : q.Precedes q') (owner : Handle) (c : Command) (n : Node) (r : Run) :
    Precedes (c.perform? s q owner n r) (c.perform? s q' owner n r) := by
  cases c with
  | place char object before m =>
    refine .need r fun out => ?_
    dsimp only
    cases s.resolve char with
    | none => exact .refl _
    | some v =>
      cases v with
      | timeline t =>
        exact .bind (spawn?_precedes hq owner char t _ _ r) (fun _ => .refl _) fun out =>
          (Run.keeps_later s out.2).emit (.refl out.2) rfl
      | _ => exact .refl _
  | reorder object before => cases before <;> exact .refl _
  | _ => exact .refl _

theorem performAll?_precedes (hq : q.Precedes q') (hlater : q'.Proceeds) (owner : Handle)
    (cs : List Command) (n : Node) (r : Run) :
    Precedes (Command.performAll? s q owner cs n r) (Command.performAll? s q' owner cs n r) := by
  induction cs generalizing n r with
  | nil => exact .refl _
  | cons c cs ih =>
    exact .bind (perform?_precedes hq owner c n r) (fun out => ih out.1 out.2) fun out =>
      performAll?_keeps (Run.keeps_later s out.2) (hlater out.2) owner cs out.1 (.refl out.2)

theorem playChildren?_precedes (hq : q.Precedes q') (hlater : q'.Proceeds) (gs : List Handle)
    (n : Node) (r : Run) : Precedes (playChildren? s q gs n r) (playChildren? s q' gs n r) := by
  induction gs generalizing n r with
  | nil => exact .refl _
  | cons g gs ih =>
    cases hc : n.animatedChild? g with
    | none =>
      rw [(playChildren?_of_not_animated s hc idle q gs r).2,
        (playChildren?_of_not_animated s hc idle q' gs r).2]
      exact ih n _
    | some c =>
      obtain ⟨pre, post, -, -, hplay⟩ := playChildren?_of_animated s hc
      rw [(hplay idle q gs r).2, (hplay idle q' gs r).2]
      exact .bind (hq g c r) (fun out => ih _ out.2) fun out =>
        playChildren?_keeps (Run.keeps_later s out.2) (hlater out.2) gs _ (.refl out.2)

theorem playFrame?_precedes (hq : q.Precedes q') (hlater : q'.Proceeds) (g : Handle) (t : Timeline)
    (n : Node) (r : Run) : Precedes (playFrame? s q g t n r) (playFrame? s q' g t n r) := by
  cases hx : r.arena.get? g with
  | none =>
    rw [playFrame?_of_dead hx, playFrame?_of_dead hx]
    exact .refl _
  | some x =>
    cases hframe : t.frames[if x.cursor = t.frameCount then 0 else x.cursor]? with
    | none =>
      rw [playFrame?_of_none hx hframe, playFrame?_of_none hx hframe]
      exact .refl _
    | some frame =>
      rw [playFrame?_eq_bind hx hframe, playFrame?_eq_bind hx hframe]
      exact .bind (performAll?_precedes hq hlater g _ n _) (fun _ => .refl _) fun out =>
        (Run.keeps_later s out.2).advance (.refl out.2) g

theorem playStep?_precedes (hq : q.Precedes q') (hlater : q'.Proceeds) :
    (playStep? s q).Precedes (playStep? s q') := by
  intro g n r
  by_cases hstill : ∀ x, r.arena.get? g = some x → x.timeline.frameCount = 0
  · rw [playStep?_eq_self hstill, playStep?_eq_self hstill]
    exact .refl _
  · push Not at hstill
    obtain ⟨x, hx, hcount⟩ := hstill
    rw [playStep?_eq_bind hx hcount, playStep?_eq_bind hx hcount]
    exact .bind (playChildren?_precedes hq hlater x.children n r)
      (fun out => playFrame?_precedes hq hlater g x.timeline out.1 out.2) fun out =>
      playFrame?_keeps (Run.keeps_later s out.2) (hlater out.2) g x.timeline out.1 (.refl out.2)

def halt : Attempt := fun _ _ run => .error run

/-- An attempt that stops at some depth precedes all that nest deeper. -/
theorem playChain?_precedes (s : Setting) (hlater : q'.Proceeds) (m : Nat) :
    (playChain? s halt m).Precedes (playChain? s q' m) := by
  induction m with
  | zero => exact fun h n r => ⟨nofun, hlater r h n (.refl r)⟩
  | succ m ih => exact playStep?_precedes ih fun r => playChain?_keeps (Run.keeps_later s r) (hlater r) m

theorem playChain?_proceeds (s : Setting) (m : Nat) : (playChain? s halt m).Proceeds := by
  have hhalt : halt.Proceeds := fun _ _ _ _ hr => hr
  exact fun r => playChain?_keeps (Run.keeps_later s r) (hhalt r) m

theorem playChain?_add (s : Setting) (q : Attempt) (k m : Nat) :
    playChain? s q (k + m) = playChain? s (playChain? s q k) m := by
  induction m with
  | zero => rfl
  | succ m ih => exact congrArg (playStep? s) ih

theorem playChain?_mono (s : Setting) {m m' : Nat} (hm : m ≤ m') :
    (playChain? s halt m).Precedes (playChain? s halt m') := by
  intro h n r
  obtain ⟨k, rfl⟩ := Nat.exists_eq_add_of_le' hm
  rw [playChain?_add]
  exact playChain?_precedes s (playChain?_proceeds s k) m h n r

/-- Where an attempt succeeds, another does with the same result. -/
def Attempt.Extends (q q' : Attempt) : Prop :=
  ∀ {h n r out}, q h n r = .ok out → q' h n r = .ok out

theorem playChain?_extends (s : Setting) {m m' : Nat} (hm : m ≤ m') :
    (playChain? s halt m).Extends (playChain? s halt m') :=
  fun hok => (playChain?_mono s hm _ _ _).ok hok

end Preceding

section Stored

/-- Attempts succeed with what a player does, as long as the free slots of the arena are slots. -/
def Attempt.Matches (q : Attempt) (p : Player) : Prop :=
  ∀ h n r, r.arena.Stored → q h n r = .ok (p h n r)

theorem Setting.keeps_stored (s : Setting) : s.Keeps fun r => r.arena.Stored where
  emit hr _ := hr
  retire hr reason h := by
    rw [Run.arena_retire]
    exact hr.retire h
  start hr _ owner object := (hr.alloc _ _ _).modify owner _
  modify hr h f _ := hr.modify h f

variable {s : Setting} {q : Attempt} {p : Player}

theorem performAll?_matches (hq : q.Matches p) (hp : p.Obeys s) (owner : Handle)
    (cs : List Command) {n : Node} {r : Run} (hs : r.arena.Stored) :
    Command.performAll? s q owner cs n r = .ok (Command.executeAll s p owner cs n r) := by
  induction cs generalizing n r with
  | nil => rfl
  | cons c cs ih =>
    have hstarts : q.Starts s p owner r c := fun _ object _ _ _ _ hchar _ =>
      hq _ _ _ (s.keeps_stored.start hs hchar owner object)
    rw [performAll?_cons hs cs hstarts, Command.executeAll]
    refine ih ?_
    rw [Command.execute_eq]
    exact settle_keeps s.keeps_stored (hp _ s.keeps_stored) owner c n hs

theorem playChildren?_matches (hq : q.Matches p) (hp : p.Obeys s) (gs : List Handle) {n : Node}
    {r : Run} (hs : r.arena.Stored) :
    playChildren? s q gs n r = .ok (playChildren s p gs n r) := by
  induction gs generalizing n r with
  | nil => rfl
  | cons g gs ih =>
    cases hc : n.animatedChild? g with
    | none =>
      obtain ⟨hplayer, hattempt⟩ := playChildren?_of_not_animated s hc p q gs r
      rw [hplayer, hattempt]
      refine ih ?_
      split
      · exact s.keeps_stored.retire hs .detached g
      · exact hs
    | some c =>
      obtain ⟨pre, post, -, -, hplay⟩ := playChildren?_of_animated s hc
      obtain ⟨hplayer, hattempt⟩ := hplay p q gs r
      rw [hplayer, hattempt, hq g c r hs]
      exact ih (hp _ s.keeps_stored g c hs)

theorem playStep?_matches (hq : q.Matches p) (hp : p.Obeys s) :
    (playStep? s q).Matches (playStep s p) := by
  intro h n r hs
  by_cases hstill : ∀ x, r.arena.get? h = some x → x.timeline.frameCount = 0
  · exact playStep?_of_still hstill
  · push Not at hstill
    obtain ⟨x, hx, hcount⟩ := hstill
    have hkeeps := playChildren_keeps s.keeps_stored (hp _ s.keeps_stored) x.children n hs
    refine playStep?_of_live hx hcount (playChildren?_matches hq hp x.children hs) ?_
    refine playFrame?_eq fun number looped plan _ => performAll?_matches hq hp h _ ?_
    exact s.keeps_stored.seek hkeeps h number

/-- No level of playback uses an index that is out of bounds. -/
theorem playChain?_matches (s : Setting) (n : Nat) :
    (playChain? s (fun _ target run => .ok (target, run)) n).Matches (playChain s idle n) := by
  induction n with
  | zero => exact fun _ _ _ _ => rfl
  | succ n ih => exact playStep?_matches ih (playChain_obeys s n)

/-- Where an attempt stops, the play is at a later point in the end. -/
theorem later_playChain (s : Setting) (m : Nat) (h : Handle) (n : Node) {r : Run}
    (hs : r.arena.Stored) :
    Run.Later (lastRun (playChain? s halt m h n r)) (playChain s idle m h n r).2 := by
  have hproceeds : Attempt.Proceeds fun _ target run => .ok (target, run) := fun _ _ _ _ hr => hr
  have hlater := (playChain?_precedes s hproceeds m h n r).later
  rwa [playChain?_matches s m h n r hs] at hlater

end Stored

end SceneReel
