import Mathlib.Order.Nat
import SceneReel.Proofs.Arena.Retire
import SceneReel.Proofs.Timeline.Fresh

/-!
What every player does, whatever tree and arena it is given: it changes of a node only the children, and
of the arena it never gives back a slot.
-/
namespace SceneReel

/-- A property of the player that does nothing, kept by each further level, holds of every chain. -/
theorem playChain_induction {P : Player → Prop} (s : Setting) (hidle : P idle)
    (hstep : ∀ p, P p → P (playStep s p)) (n : Nat) : P (playChain s idle n) := by
  induction n with
  | zero => exact hidle
  | succ n ih => exact hstep _ ih

namespace Run

@[simp] theorem arena_emit (run : Run) (e : Event) : (run.emit e).arena = run.arena := rfl

@[simp] theorem events_emit (run : Run) (e : Event) :
    (run.emit e).events = run.events.push e := rfl

@[simp] theorem arena_retire (run : Run) (reason : RetireReason) (h : Handle) :
    (run.retire reason h).arena = (run.arena.retire h).2 := by
  unfold retire
  cases hx : run.arena.get? h with
  | none => simp [Arena.retire_of_dead hx]
  | some x =>
    have hpos := Arena.retire_pos hx
    generalize run.arena.retire h = out at hpos ⊢
    obtain ⟨slots, arena⟩ := out
    cases slots with
    | zero => cases hpos
    | succ slots => rfl

theorem events_retire (run : Run) (reason : RetireReason) (h : Handle) :
    (run.retire reason h).events = run.events ∨
      ∃ slots, (run.retire reason h).events = run.events.push (.retire h slots reason) := by
  unfold retire
  split
  · exact .inl rfl
  · exact .inr ⟨_, rfl⟩

theorem mem_events_retire {run : Run} {reason : RetireReason} {h : Handle} {e : Event}
    (he : e ∈ (run.retire reason h).events) :
    e ∈ run.events ∨ ∃ slots, e = .retire h slots reason := by
  rcases run.events_retire reason h with hkeep | ⟨slots, hpush⟩
  · exact .inl (hkeep ▸ he)
  · rw [hpush] at he
    exact (Array.mem_push.mp he).imp_right fun he => ⟨slots, he⟩

def start (run : Run) (t : Timeline) (owner : Handle) (depth : Nat) (object : ObjectId)
    (char : CharId) : Run :=
  Run.emit { run with arena := (run.arena.spawn t owner depth).2 }
    (.spawn owner (run.arena.spawn t owner depth).1 object char)

@[simp] theorem arena_start (run : Run) (t : Timeline) (owner : Handle) (depth : Nat)
    (object : ObjectId) (char : CharId) :
    (run.start t owner depth object char).arena = (run.arena.spawn t owner depth).2 := rfl

def seek (run : Run) (h : Handle) (number : Nat) : Run :=
  { run with arena := run.arena.modify h fun x => { x with cursor := number } }

def advance (run : Run) (h : Handle) : Run :=
  { run with arena := run.arena.modify h fun x => { x with cursor := x.cursor + 1 } }

theorem get?_seek {run : Run} {h : Handle} {x : Animation} (hx : run.arena.get? h = some x)
    (number : Nat) : (run.seek h number).arena.get? h = some { x with cursor := number } := by
  rw [seek, Arena.get?_modify, if_pos rfl, hx, Option.map_some]

theorem get?_advance {run : Run} {h : Handle} {x : Animation} (hx : run.arena.get? h = some x) :
    (run.advance h).arena.get? h = some { x with cursor := x.cursor + 1 } := by
  rw [advance, Arena.get?_modify, if_pos rfl, hx, Option.map_some]

theorem get?_advance_of_ne (run : Run) {h k : Handle} (hk : k ≠ h) :
    (run.advance h).arena.get? k = run.arena.get? k := by
  rw [advance, Arena.get?_modify, if_neg hk]

theorem live_seek {run : Run} {k : Handle} {y : Animation} (hy : run.arena.get? k = some y)
    (h : Handle) (number : Nat) : ∃ y', (run.seek h number).arena.get? k = some y' := by
  by_cases hk : k = h
  · subst hk
    exact ⟨_, get?_seek hy number⟩
  · rw [seek, Arena.get?_modify, if_neg hk]
    exact ⟨y, hy⟩

@[simp] theorem size_seek (run : Run) (h : Handle) (number : Nat) :
    (run.seek h number).arena.slots.size = run.arena.slots.size :=
  Arena.size_modify _ _ _

@[simp] theorem size_advance (run : Run) (h : Handle) :
    (run.advance h).arena.slots.size = run.arena.slots.size :=
  Arena.size_modify _ _ _

end Run

def Plan.report (plan : Plan) (h : Handle) (number : Nat) (looped : Bool) : FrameEvent where
  animator := h
  frame := number
  looped := looped
  pruned := plan.pruned
  commands := plan.commands.length
  unsupported := plan.unsupported

section Ticking

variable (s : Setting) (p : Player) {h : Handle} {t : Timeline} {x : Animation} {n : Node} {r : Run}

/-- The frame of an animator: it is reported, its commands are executed, and the cursor moves on. -/
theorem playFrame_eq {frame : Frame} (hx : r.arena.get? h = some x)
    (hframe : t.frames[if x.cursor = t.frameCount then 0 else x.cursor]? = some frame) :
    playFrame s p h t n r =
      let number := if x.cursor = t.frameCount then 0 else x.cursor
      let looped := x.cursor == t.frameCount
      let plan := Plan.ofFrame n.childIds frame looped
      let out := Command.executeAll s p h plan.commands n
        ((r.seek h number).emit (.frame (plan.report h number looped)))
      (out.1, out.2.advance h) := by
  unfold playFrame
  simp only [hx, beq_iff_eq, hframe]
  rfl

theorem playFrame_of_none (hx : r.arena.get? h = some x)
    (hframe : t.frames[if x.cursor = t.frameCount then 0 else x.cursor]? = none) :
    playFrame s p h t n r = (n, r.seek h (if x.cursor = t.frameCount then 0 else x.cursor)) := by
  simp only [playFrame, hx, beq_iff_eq, hframe]
  rfl

theorem playFrame_of_dead (hx : r.arena.get? h = none) : playFrame s p h t n r = (n, r) := by
  rw [playFrame, hx]

theorem Timeline.frameCount_ne_zero {t : Timeline} {k : Nat} {frame : Frame}
    (hframe : t.frames[k]? = some frame) : t.frameCount ≠ 0 :=
  Nat.ne_zero_of_lt (List.getElem?_eq_some_iff.mp hframe).1

/-- The tick of an animator: those nested in it play, and then its own frame does. -/
theorem playStep_eq (hx : r.arena.get? h = some x) (hcount : x.timeline.frameCount ≠ 0) :
    playStep s p h n r =
      let out := playChildren s p x.children n r
      playFrame s p h x.timeline out.1 out.2 := by
  simp only [playStep, hx, hcount, if_false]

theorem playStep_of_empty (hx : r.arena.get? h = some x) (hcount : x.timeline.frameCount = 0) :
    playStep s p h n r = (n, r) := by
  simp only [playStep, hx, hcount, if_true]

theorem playStep_of_dead (hx : r.arena.get? h = none) : playStep s p h n r = (n, r) := by
  rw [playStep, hx]

end Ticking

theorem Node.updateChild?_eq_some {α : Type} {q : Node → Bool} {f : Node → Node × α} {n n' : Node}
    {b : α} (h : n.updateChild? q f = some (n', b)) :
    ∃ pre c post, n.children = pre ++ c :: post ∧ q c = true ∧
      n' = { n with children := pre ++ (f c).1 :: post } ∧ b = (f c).2 := by
  obtain ⟨⟨cs, b'⟩, hu, he⟩ := Option.map_eq_some_iff.mp h
  cases he
  obtain ⟨pre, c, post, hcs, hq, -, rfl, rfl⟩ := updateFirst?_eq_some hu
  exact ⟨pre, c, post, hcs, hq, rfl, rfl⟩

/-- What a change does to other children than the first with the property does not matter. -/
theorem Node.updateChild?_first {α : Type} {q : Node → Bool} {f : Node → Node × α} {n : Node}
    {out : Node × α} (h : n.updateChild? q f = some out) :
    ∃ c ∈ n.children, q c = true ∧ out.2 = (f c).2 ∧
      ∀ g : Node → Node × α, g c = f c → n.updateChild? q g = some out := by
  obtain ⟨⟨cs, b⟩, hu, he⟩ := Option.map_eq_some_iff.mp h
  cases he
  obtain ⟨pre, c, post, hcs, hq, hpre, rfl, rfl⟩ := updateFirst?_eq_some hu
  refine ⟨c, by simp [hcs], hq, rfl, fun g hg => ?_⟩
  rw [updateChild?, hcs, updateFirst?_append_cons hpre hq g, hg]
  rfl

theorem Node.updateChild?_eq_none_iff {α : Type} {q : Node → Bool} {f : Node → Node × α}
    {n : Node} : n.updateChild? q f = none ↔ ∀ c ∈ n.children, q c = false := by
  rw [updateChild?, Option.map_eq_none_iff, updateFirst?_eq_none_iff]

theorem Node.updateChild?_of_animated {n c : Node} {g : Handle} (hc : n.animatedChild? g = some c) :
    ∃ pre post, n.children = pre ++ c :: post ∧ c.animator? = some g ∧
      ∀ {α : Type} (f : Node → Node × α), n.updateChild? (·.animator? = some g) f =
        some ({ n with children := pre ++ (f c).1 :: post }, (f c).2) := by
  obtain ⟨hg, pre, post, hcs, hpre⟩ := List.find?_eq_some_iff_append.mp hc
  have hbefore : ∀ y ∈ pre, decide (y.animator? = some g) = false := fun y hy => by
    simpa using hpre y hy
  refine ⟨pre, post, hcs, of_decide_eq_true hg, fun f => ?_⟩
  rw [Node.updateChild?, hcs, updateFirst?_append_cons hbefore hg]
  rfl

theorem Node.exists_animatedChild? {n : Node} {g : Handle} (hg : g ∈ Node.hosted n.children) :
    ∃ c, n.animatedChild? g = some c := by
  obtain ⟨b, hb, hbg⟩ := Node.mem_hosted.mp hg
  refine Option.isSome_iff_exists.mp ?_
  rw [Node.animatedChild?, List.find?_isSome]
  exact ⟨b, hb, decide_eq_true hbg⟩

section Spawn

variable {s : Setting} {p : Player} {owner : Handle} {char : CharId} {t : Timeline} {n : Node}
  {r : Run}

theorem spawn_of_lt (hd : s.options.maxNestingDepth < r.spawnDepth owner) :
    spawn s p owner char t n r =
      (n, r.emit (.nestingLimit owner n.id (r.spawnDepth owner))) := by
  simp [spawn, hd]

theorem spawn_of_le (hd : r.spawnDepth owner ≤ s.options.maxNestingDepth) :
    spawn s p owner char t n r =
      p (r.arena.spawn t owner (r.spawnDepth owner)).1
        { n with kind := .clip char (some (r.arena.spawn t owner (r.spawnDepth owner)).1) }
        (r.start t owner (r.spawnDepth owner) n.id char) := by
  simp only [spawn, Nat.not_lt.mpr hd, if_false]
  rfl

theorem enter_of_still {h : Handle} (hr : ∀ t, s.resolve char ≠ some (.timeline t))
    (object : ObjectId) (m : Geometry.Matrix) :
    Command.enter s p h char object m r =
        ({ id := object, kind := .ofResolved char (s.resolve char), transform := m.decompose }, r) ∧
      ∀ clip g, NodeKind.ofResolved char (s.resolve char) ≠ .clip clip g := by
  unfold Command.enter
  cases hc : s.resolve char with
  | none => exact ⟨rfl, fun _ _ => NodeKind.noConfusion⟩
  | some v =>
    cases v with
    | timeline t => exact absurd hc (hr t)
    | _ => exact ⟨rfl, fun _ _ => NodeKind.noConfusion⟩

theorem enter_of_timeline (hr : s.resolve char = some (.timeline t)) (object : ObjectId)
    (m : Geometry.Matrix) :
    Command.enter s p owner char object m r = spawn s p owner char t
      { id := object, kind := .clip char none, transform := m.decompose } r := by
  unfold Command.enter
  rw [hr]
  rfl

end Spawn

section Heads

/-- A player leaves of a node all but the children. -/
def Player.KeepsHead (p : Player) : Prop :=
  ∀ h n r, (p h n r).1.head = n.head

variable {s : Setting} {p : Player}

theorem playChildren_head (hs : List Handle) (n : Node) (r : Run) :
    (playChildren s p hs n r).1.head = n.head := by
  induction hs generalizing n r with
  | nil => rfl
  | cons h hs ih =>
    rw [playChildren]
    split
    · rename_i target run heq
      obtain ⟨pre, c, post, -, -, rfl, -⟩ := Node.updateChild?_eq_some heq
      rw [ih]
      rfl
    · rw [ih]

theorem enter_shown (hp : p.KeepsHead) (owner : Handle) (char : CharId) (object : ObjectId)
    (m : Geometry.Matrix) (r : Run) :
    (Command.enter s p owner char object m r).1.id = object ∧
      (Command.enter s p owner char object m r).1.transform = m.decompose ∧
      (Command.enter s p owner char object m r).1.visible = true := by
  unfold Command.enter
  split
  · rename_i t _
    unfold spawn
    dsimp only
    split
    · exact ⟨rfl, rfl, rfl⟩
    · obtain ⟨hid, -, htransform, hvisible⟩ := Node.head_eq_iff.mp (hp _ _ _)
      exact ⟨hid, htransform, hvisible⟩
  · exact ⟨rfl, rfl, rfl⟩

/-- The ids of the children after a command follow from those before. -/
theorem childIds_arrange (hp : p.KeepsHead) (owner : Handle) (c : Command) (n : Node) (r : Run) :
    Node.childIds
      { n with
        children := c.arrange Command.nodes (fun x y m => (Command.enter s p owner x y m r).1)
          n.children } = c.idsAfter n.childIds :=
  Command.map_arrange Command.respects_id c n.children
    fun _ _ _ _ _ => (enter_shown hp _ _ _ _ _).1

theorem executeAll_head (h : Handle) (cs : List Command) (n : Node) (r : Run) :
    (Command.executeAll s p h cs n r).1.head = n.head := by
  induction cs generalizing n r with
  | nil => rfl
  | cons c cs ih =>
    rw [Command.executeAll_cons, ih]
    rfl

theorem playFrame_head (h : Handle) (t : Timeline) (n : Node) (r : Run) :
    (playFrame s p h t n r).1.head = n.head := by
  cases hx : r.arena.get? h with
  | none => rw [playFrame_of_dead s p hx]
  | some x =>
    cases hframe : t.frames[if x.cursor = t.frameCount then 0 else x.cursor]? with
    | none => rw [playFrame_of_none s p hx hframe]
    | some frame =>
      rw [playFrame_eq s p hx hframe]
      exact executeAll_head _ _ _ _

theorem playStep_head (s : Setting) (p : Player) : (playStep s p).KeepsHead := by
  intro h n r
  cases hx : r.arena.get? h with
  | none => rw [playStep_of_dead s p hx]
  | some x =>
    by_cases hcount : x.timeline.frameCount = 0
    · rw [playStep_of_empty s p hx hcount]
    · rw [playStep_eq s p hx hcount]
      exact (playFrame_head _ _ _ _).trans (playChildren_head _ _ _)

theorem playChildren_heads (hp : p.KeepsHead) (hs : List Handle) (n : Node) (r : Run) :
    (playChildren s p hs n r).1.children.map Node.head = n.children.map Node.head := by
  induction hs generalizing n r with
  | nil => rfl
  | cons h hs ih =>
    rw [playChildren]
    split
    · rename_i target run heq
      obtain ⟨pre, c, post, hcs, -, rfl, -⟩ := Node.updateChild?_eq_some heq
      rw [ih, hcs]
      simp [hp h c r]
    · rw [ih]

end Heads

theorem playChildren_cons (s : Setting) (p : Player) (gs : List Handle) {g : Handle} {n : Node}
    (hg : g ∈ Node.hosted n.children) (r : Run) :
    ∃ pre c post, n.children = pre ++ c :: post ∧ c.animator? = some g ∧
      playChildren s p (g :: gs) n r = playChildren s p gs
        { n with children := pre ++ (p g c r).1 :: post } (p g c r).2 := by
  obtain ⟨c, hc⟩ := Node.exists_animatedChild? hg
  obtain ⟨pre, post, hcs, hcg, hupdate⟩ := Node.updateChild?_of_animated hc
  refine ⟨pre, c, post, hcs, hcg, ?_⟩
  rw [playChildren, hupdate]

theorem playChildren_of_bare (s : Setting) (p : Player) {n : Node}
    (hn : ∀ c ∈ n.children, c.animator? = none) (gs : List Handle) (r : Run) :
    playChildren s p gs n r =
      (n, if s.options.retireDetached then gs.foldl (Run.retire · .detached) r else r) := by
  induction gs generalizing r with
  | nil =>
    rw [List.foldl_nil, ite_self]
    rfl
  | cons g gs ih =>
    have hnone : n.updateChild? (·.animator? = some g) (p g · r) = none := by
      refine Node.updateChild?_eq_none_iff.mpr fun c hc => ?_
      rw [hn c hc]
      rfl
    rw [playChildren, hnone]
    dsimp only
    rw [ih]
    split <;> rfl

section Keeping

/-- The event reports that an animator starts or retires. -/
def Event.isChange : Event → Bool
  | .spawn .. | .retire .. => true
  | _ => false

/-- A property of runs that nothing breaks that playback does to a run. -/
structure Setting.Keeps (s : Setting) (P : Run → Prop) : Prop where
  emit : ∀ {r e}, P r → e.isChange = false → P (r.emit e)
  retire : ∀ {r}, P r → ∀ reason h, P (r.retire reason h)
  start : ∀ {r char t}, P r → s.resolve char = some (.timeline t) → ∀ owner object,
    P (r.start t owner (r.spawnDepth owner) object char)
  modify : ∀ {r}, P r → ∀ h f, (∀ x, ∃ k, f x = { x with cursor := k }) →
    P { r with arena := r.arena.modify h f }

def Player.Keeps (P : Run → Prop) (p : Player) : Prop :=
  ∀ h n {r}, P r → P (p h n r).2

variable {s : Setting} {p : Player} {P : Run → Prop} {r : Run}

theorem Setting.Keeps.seek (hs : s.Keeps P) (hr : P r) (h : Handle) (k : Nat) : P (r.seek h k) :=
  hs.modify hr h _ fun _ => ⟨k, rfl⟩

theorem Setting.Keeps.advance (hs : s.Keeps P) (hr : P r) (h : Handle) : P (r.advance h) :=
  hs.modify hr h _ fun x => ⟨x.cursor + 1, rfl⟩

theorem spawn_keeps (hs : s.Keeps P) (hp : p.Keeps P) (owner : Handle) {char : CharId}
    {t : Timeline} (n : Node) (hr : P r) (hchar : s.resolve char = some (.timeline t)) :
    P (spawn s p owner char t n r).2 := by
  by_cases hd : s.options.maxNestingDepth < r.spawnDepth owner
  · rw [spawn_of_lt hd]
    exact hs.emit hr rfl
  · rw [spawn_of_le (Nat.le_of_not_lt hd)]
    exact hp _ _ (hs.start hr hchar owner n.id)

theorem enter_keeps (hs : s.Keeps P) (hp : p.Keeps P) (owner : Handle) (char : CharId)
    (object : ObjectId) (m : Geometry.Matrix) (hr : P r) :
    P (Command.enter s p owner char object m r).2 := by
  unfold Command.enter
  split
  · exact spawn_keeps hs hp owner _ hr ‹_›
  · exact hr

theorem retireAll_keeps (hs : s.Keeps P) (gs : List Handle) (reason : RetireReason) (hr : P r) :
    P (gs.foldl (Run.retire · reason) r) := by
  induction gs generalizing r with
  | nil => exact hr
  | cons h gs ih => exact ih (hs.retire hr reason h)

theorem settle_keeps (hs : s.Keeps P) (hp : p.Keeps P) (owner : Handle) (c : Command) (n : Node)
    (hr : P r) : P (c.settle s p owner n r) := by
  cases c with
  | place char object before m => exact enter_keeps hs hp owner char object m hr
  | remove object => exact retireAll_keeps hs _ _ hr
  | _ => exact hr

theorem executeAll_keeps (hs : s.Keeps P) (hp : p.Keeps P) (h : Handle) (cs : List Command)
    (n : Node) (hr : P r) : P (Command.executeAll s p h cs n r).2 := by
  induction cs generalizing n r with
  | nil => exact hr
  | cons c cs ih =>
    rw [Command.executeAll_cons]
    exact ih _ (hs.emit (settle_keeps hs hp h c n hr) rfl)

theorem playChildren_keeps (hs : s.Keeps P) (hp : p.Keeps P) (gs : List Handle) (n : Node)
    (hr : P r) : P (playChildren s p gs n r).2 := by
  induction gs generalizing n r with
  | nil => exact hr
  | cons h gs ih =>
    rw [playChildren]
    split
    · rename_i target run heq
      obtain ⟨pre, c, post, -, -, -, rfl⟩ := Node.updateChild?_eq_some heq
      exact ih _ (hp h c hr)
    · refine ih _ ?_
      split
      · exact hs.retire hr .detached h
      · exact hr

theorem playFrame_keeps (hs : s.Keeps P) (hp : p.Keeps P) (h : Handle) (t : Timeline) (n : Node)
    (hr : P r) : P (playFrame s p h t n r).2 := by
  cases hx : r.arena.get? h with
  | none =>
    rw [playFrame_of_dead s p hx]
    exact hr
  | some x =>
    cases hframe : t.frames[if x.cursor = t.frameCount then 0 else x.cursor]? with
    | none =>
      rw [playFrame_of_none s p hx hframe]
      exact hs.seek hr h _
    | some frame =>
      rw [playFrame_eq s p hx hframe]
      exact hs.advance (executeAll_keeps hs hp h _ n (hs.emit (hs.seek hr h _) rfl)) h

theorem playStep_keeps (hs : s.Keeps P) (hp : p.Keeps P) : (playStep s p).Keeps P := by
  intro h n r hr
  cases hx : r.arena.get? h with
  | none =>
    rw [playStep_of_dead s p hx]
    exact hr
  | some x =>
    by_cases hcount : x.timeline.frameCount = 0
    · rw [playStep_of_empty s p hx hcount]
      exact hr
    · rw [playStep_eq s p hx hcount]
      exact playFrame_keeps hs hp h _ _ (playChildren_keeps hs hp _ n hr)

theorem playChain_keeps (hs : s.Keeps P) (n : Nat) : (playChain s idle n).Keeps P :=
  playChain_induction s (fun _ _ _ hr => hr) (fun _ hp => playStep_keeps hs hp) n

end Keeping

section Growth

/-- A player may take further slots, but gives none back. -/
def Player.Grows (p : Player) : Prop :=
  ∀ h n r, r.arena.slots.size ≤ (p h n r).2.arena.slots.size

theorem Setting.keeps_size (s : Setting) (k : Nat) : s.Keeps fun r => k ≤ r.arena.slots.size where
  emit hr _ := hr
  retire {r} hr reason h := by rwa [Run.arena_retire, Arena.size_retire]
  start {r char t} hr _ owner object :=
    Nat.le_trans hr (Arena.size_le_size_spawn r.arena t owner (r.spawnDepth owner))
  modify hr h f _ := by rwa [Arena.size_modify]

variable {s : Setting} {p : Player}

theorem Player.Grows.keeps (hp : p.Grows) (k : Nat) : p.Keeps fun r => k ≤ r.arena.slots.size :=
  fun h n _ hr => Nat.le_trans hr (hp h n _)

theorem size_retireAll (hs : List Handle) (reason : RetireReason) (r : Run) :
    (hs.foldl (Run.retire · reason) r).arena.slots.size = r.arena.slots.size := by
  induction hs generalizing r with
  | nil => rfl
  | cons h hs ih => rw [List.foldl_cons, ih, Run.arena_retire, Arena.size_retire]

theorem enter_grows (hp : p.Grows) (owner : Handle) (char : CharId) (object : ObjectId)
    (m : Geometry.Matrix) (r : Run) :
    r.arena.slots.size ≤ (Command.enter s p owner char object m r).2.arena.slots.size :=
  enter_keeps (s.keeps_size _) (hp.keeps _) owner char object m (Nat.le_refl _)

theorem settle_grows (hp : p.Grows) (owner : Handle) (c : Command) (n : Node) (r : Run) :
    r.arena.slots.size ≤ (c.settle s p owner n r).arena.slots.size :=
  settle_keeps (s.keeps_size _) (hp.keeps _) owner c n (Nat.le_refl _)

theorem executeAll_grows (hp : p.Grows) (h : Handle) (cs : List Command) (n : Node) (r : Run) :
    r.arena.slots.size ≤ (Command.executeAll s p h cs n r).2.arena.slots.size :=
  executeAll_keeps (s.keeps_size _) (hp.keeps _) h cs n (Nat.le_refl _)

theorem playChildren_grows (hp : p.Grows) (hs : List Handle) (n : Node) (r : Run) :
    r.arena.slots.size ≤ (playChildren s p hs n r).2.arena.slots.size :=
  playChildren_keeps (s.keeps_size _) (hp.keeps _) hs n (Nat.le_refl _)

theorem playFrame_grows (hp : p.Grows) (h : Handle) (t : Timeline) (n : Node) (r : Run) :
    r.arena.slots.size ≤ (playFrame s p h t n r).2.arena.slots.size :=
  playFrame_keeps (s.keeps_size _) (hp.keeps _) h t n (Nat.le_refl _)

theorem playStep_grows (s : Setting) (p : Player) (hp : p.Grows) : (playStep s p).Grows :=
  fun h n _ => playStep_keeps (s.keeps_size _) (hp.keeps _) h n (Nat.le_refl _)

theorem playChain_grows (s : Setting) (n : Nat) : (playChain s idle n).Grows :=
  fun h m _ => playChain_keeps (s.keeps_size _) n h m (Nat.le_refl _)

end Growth

end SceneReel
