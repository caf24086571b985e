import SceneReel.Proofs.Playback.CascadePlay

/-!
The commands that a play executes, each with the place in the tree of the node that it changes. A ledger
follows a play through the tree and counts the steps down from the root itself, so that the depth in it owes
nothing to the depths that the arena holds.
-/
namespace SceneReel

/-- A command that an animator executes, on a node so many steps below the root of the tree. -/
structure Execution where
  owner : Handle
  depth : Nat
  command : Command

/-- A clip that comes into the tree, so many steps below the root, and the animator that places it. -/
structure Insertion where
  owner : Handle
  object : ObjectId
  char : CharId
  depth : Nat
  deriving DecidableEq, Repr

namespace Execution

/-- How a command is reported, the outcome aside. -/
def report (e : Execution) : Handle × CommandKind × ObjectId :=
  (e.owner, e.command.kind, e.command.object)

def inserted? (resolve : CharId → Option Resolved) (e : Execution) : Option Insertion :=
  match e.command with
  | .place char object _ _ =>
    match resolve char with
    | some (.timeline _) => some ⟨e.owner, object, char, e.depth + 1⟩
    | _ => none
  | _ => none

theorem inserted?_of_still {resolve : CharId → Option Resolved} {char : CharId}
    (hr : ∀ t, resolve char ≠ some (.timeline t)) (h : Handle) (d : Nat) (object : ObjectId)
    (before : Option ObjectId) (m : Geometry.Matrix) :
    (Execution.mk h d (.place char object before m)).inserted? resolve = none := by
  unfold inserted?
  dsimp only
  split
  · exact absurd ‹_› (hr _)
  · rfl

end Execution

def inserted (resolve : CharId → Option Resolved) (log : List Execution) : List Insertion :=
  log.filterMap (·.inserted? resolve)

/-- The commands that a play executes on a node so many steps below the root, each before those it leads
to. -/
abbrev Ledger := Nat → Handle → Node → Run → List Execution

def spawnLedger (s : Setting) (ledger : Ledger) (depth : Nat) (owner : Handle) (char : CharId)
    (t : Timeline) (n : Node) (r : Run) : List Execution :=
  if s.options.maxNestingDepth < r.spawnDepth owner then []
  else
    ledger depth (r.arena.spawn t owner (r.spawnDepth owner)).1
      { n with kind := .clip char (some (r.arena.spawn t owner (r.spawnDepth owner)).1) }
      (r.start t owner (r.spawnDepth owner) n.id char)

namespace Command

/-- A command, and those of the clip that it starts. -/
def ledger (s : Setting) (ledger : Ledger) (depth : Nat) (owner : Handle) (c : Command) (r : Run) :
    List Execution :=
  ⟨owner, depth, c⟩ ::
    match c with
    | .place char object _ matrix =>
      match s.resolve char with
      | some (.timeline t) => spawnLedger s ledger (depth + 1) owner char t
          { id := object, kind := .clip char none, transform := matrix.decompose } r
      | _ => []
    | _ => []

def ledgerAll (s : Setting) (p : Player) (ledger : Ledger) (depth : Nat) (owner : Handle) :
    List Command → Node → Run → List Execution
  | [], _, _ => []
  | c :: cs, n, r =>
    let (outcome, n', r') := c.execute s p owner n r
    c.ledger s ledger depth owner r ++
      ledgerAll s p ledger depth owner cs n' (r'.emit (.command owner c.kind c.object outcome))

end Command

def childrenLedger (s : Setting) (p : Player) (ledger : Ledger) (depth : Nat) :
    List Handle → Node → Run → List Execution
  | [], _, _ => []
  | g :: gs, n, r =>
    let (n', r') := playChildren s p [g] n r
    (match n.animatedChild? g with
      | some c => ledger (depth + 1) g c r
      | none => []) ++ childrenLedger s p ledger depth gs n' r'

def frameLedger (s : Setting) (p : Player) (ledger : Ledger) (depth : Nat) (h : Handle)
    (t : Timeline) (n : Node) (r : Run) : List Execution :=
  match r.arena.get? h with
  | none => []
  | some x =>
    let number := if x.cursor = t.frameCount then 0 else x.cursor
    let looped := x.cursor == t.frameCount
    match t.frames[number]? with
    | none => []
    | some frame =>
      let plan := Plan.ofFrame n.childIds frame looped
      Command.ledgerAll s p ledger depth h plan.commands n
        ((r.seek h number).emit (.frame (plan.report h number looped)))

def stepLedger (s : Setting) (p : Player) (ledger : Ledger) : Ledger := fun depth h n r =>
  match r.arena.get? h with
  | none => []
  | some x =>
    if x.timeline.frameCount = 0 then []
    else
      let (n', r') := playChildren s p x.children n r
      childrenLedger s p ledger depth x.children n r ++
        frameLedger s p ledger depth h x.timeline n' r'

def chainLedger (s : Setting) : Nat → Ledger
  | 0 => fun _ _ _ _ => []
  | m + 1 => stepLedger s (playChain s idle m) (chainLedger s m)

section Equations

variable {s : Setting} {p : Player} {ledger : Ledger} {depth : Nat} {owner g h : Handle} {n : Node}
  {r : Run}

theorem spawnLedger_of_lt {char : CharId} {t : Timeline}
    (hd : s.options.maxNestingDepth < r.spawnDepth owner) :
    spawnLedger s ledger depth owner char t n r = [] :=
  if_pos hd

theorem spawnLedger_of_le {char : CharId} {t : Timeline}
    (hd : r.spawnDepth owner ≤ s.options.maxNestingDepth) :
    spawnLedger s ledger depth owner char t n r =
      ledger depth (r.arena.spawn t owner (r.spawnDepth owner)).1
        { n with kind := .clip char (some (r.arena.spawn t owner (r.spawnDepth owner)).1) }
        (r.start t owner (r.spawnDepth owner) n.id char) :=
  if_neg (Nat.not_lt.mpr hd)

theorem Command.ledger_of_timeline {char : CharId} {t : Timeline}
    (hr : s.resolve char = some (.timeline t)) (object : ObjectId) (before : Option ObjectId)
    (m : Geometry.Matrix) :
    (Command.place char object before m).ledger s ledger depth owner r =
      ⟨owner, depth, .place char object before m⟩ :: spawnLedger s ledger (depth + 1) owner char t
        { id := object, kind := .clip char none, transform := m.decompose } r := by
  simp only [Command.ledger, hr]

/-- A command that inserts no clip leads to no others. -/
theorem Command.ledger_of_still {c : Command}
    (hc : (Execution.mk owner depth c).inserted? s.resolve = none) :
    c.ledger s ledger depth owner r = [⟨owner, depth, c⟩] := by
  cases c with
  | place char object before m =>
    rw [Command.ledger]
    split
    · simp [Execution.inserted?, *] at hc
    · rfl
  | _ => rfl

theorem Command.ledgerAll_cons (s : Setting) (p : Player) (ledger : Ledger) (depth : Nat)
    (owner : Handle) (c : Command) (cs : List Command) (n : Node) (r : Run) :
    Command.ledgerAll s p ledger depth owner (c :: cs) n r =
      c.ledger s ledger depth owner r ++ Command.ledgerAll s p ledger depth owner cs
        { n with
          children := c.arrange nodes (fun x y m => (enter s p owner x y m r).1) n.children }
        ((c.settle s p owner n r).emit
          (.command owner c.kind c.object (c.execute s p owner n r).1)) := by
  have h := execute_eq s p owner n r c
  rw [Command.ledgerAll]
  generalize c.execute s p owner n r = out at h ⊢
  obtain ⟨outcome, node, r'⟩ := out
  cases h
  rfl

theorem childrenLedger_cons (s : Setting) (p : Player) (ledger : Ledger) (depth : Nat)
    (gs : List Handle) (hg : g ∈ Node.hosted n.children) (r : Run) :
    ∃ pre c post, n.children = pre ++ c :: post ∧ c.animator? = some g ∧
      playChildren s p (g :: gs) n r = playChildren s p gs
        { n with children := pre ++ (p g c r).1 :: post } (p g c r).2 ∧
      childrenLedger s p ledger depth (g :: gs) n r = ledger (depth + 1) g c r ++
        childrenLedger s p ledger depth gs
          { n with children := pre ++ (p g c r).1 :: post } (p g c r).2 := by
  obtain ⟨c, hc⟩ := Node.exists_animatedChild? hg
  obtain ⟨pre, post, hcs, hcg, hupdate⟩ := Node.updateChild?_of_animated hc
  have hplay : ∀ gs, playChildren s p (g :: gs) n r = playChildren s p gs
      { n with children := pre ++ (p g c r).1 :: post } (p g c r).2 := by
    intro gs
    rw [playChildren, hupdate]
  refine ⟨pre, c, post, hcs, hcg, hplay gs, ?_⟩
  rw [childrenLedger, hplay [], hc]
  rfl

theorem frameLedger_eq (s : Setting) (p : Player) (ledger : Ledger) (depth : Nat) {t : Timeline}
    {x : Animation} {frame : Frame} (hx : r.arena.get? h = some x)
    (hframe : t.frames[if x.cursor = t.frameCount then 0 else x.cursor]? = some frame) :
    frameLedger s p ledger depth h t n r =
      let number := if x.cursor = t.frameCount then 0 else x.cursor
      let looped := x.cursor == t.frameCount
      let plan := Plan.ofFrame n.childIds frame looped
      Command.ledgerAll s p ledger depth h plan.commands n
        ((r.seek h number).emit (.frame (plan.report h number looped))) := by
  simp only [frameLedger, hx, hframe]

end Equations

end SceneReel
