import SceneReel.Proofs.Playback.Ledger

/-!
A play reports its ledger, where the tree is linked with the arena: each clip that is inserted within the
nesting limit as started, each that is inserted one step beyond as too deep, and none is inserted deeper.
-/
namespace SceneReel

open Node (hosted)

namespace Event

def execution? : Event → Option (Handle × CommandKind × ObjectId)
  | .command animator kind object _ => some (animator, kind, object)
  | _ => none

def start? : Event → Option (Handle × ObjectId × CharId)
  | .spawn parent _ object char => some (parent, object, char)
  | _ => none

def limit? : Event → Option (Handle × ObjectId × Nat)
  | .nestingLimit parent object depth => some (parent, object, depth)
  | _ => none

end Event

/-- Events report each command of a log, and each clip that it inserts as started or as too deep, and
nothing else. -/
structure Reported (s : Setting) (log : List Execution) (events : List Event) : Prop where
  executions : (events.filterMap Event.execution?).Perm (log.map Execution.report)
  starts : events.filterMap Event.start? =
    ((inserted s.resolve log).filter (·.depth ≤ s.options.maxNestingDepth)).map
      fun i => (i.owner, i.object, i.char)
  limits : events.filterMap Event.limit? =
    ((inserted s.resolve log).filter (·.depth = s.options.maxNestingDepth + 1)).map
      fun i => (i.owner, i.object, i.depth)
  shallow : ∀ i ∈ inserted s.resolve log, i.depth ≤ s.options.maxNestingDepth + 1

@[simp] theorem inserted_nil (resolve : CharId → Option Resolved) : inserted resolve [] = [] := rfl

theorem inserted_place {resolve : CharId → Option Resolved} {char : CharId} {t : Timeline}
    (hr : resolve char = some (.timeline t)) (h : Handle) (d : Nat) (object : ObjectId)
    (before : Option ObjectId) (m : Geometry.Matrix) (log : List Execution) :
    inserted resolve (⟨h, d, .place char object before m⟩ :: log) =
      ⟨h, object, char, d + 1⟩ :: inserted resolve log :=
  List.filterMap_cons_some (by simp [Execution.inserted?, hr])

theorem inserted_append (resolve : CharId → Option Resolved) (log log' : List Execution) :
    inserted resolve (log ++ log') = inserted resolve log ++ inserted resolve log' :=
  List.filterMap_append

namespace Reported

variable {s : Setting} {log log' : List Execution} {es es' : List Event} {b : Event} {h child : Handle}
  {d : Nat} {char : CharId} {object : ObjectId} {before : Option ObjectId} {m : Geometry.Matrix}
  {t : Timeline} {outcome : Outcome}

theorem nil (s : Setting) : Reported s [] [] :=
  ⟨.refl _, rfl, rfl, fun _ hi => absurd hi List.not_mem_nil⟩

theorem append (h : Reported s log es) (h' : Reported s log' es') :
    Reported s (log ++ log') (es ++ es') where
  executions := by
    rw [List.filterMap_append, List.map_append]
    exact h.executions.append h'.executions
  starts := by
    rw [List.filterMap_append, inserted_append, List.filter_append, List.map_append, h.starts,
      h'.starts]
  limits := by
    rw [List.filterMap_append, inserted_append, List.filter_append, List.map_append, h.limits,
      h'.limits]
  shallow := by
    rw [inserted_append]
    exact List.forall_mem_append.mpr ⟨h.shallow, h'.shallow⟩

/-- Events that are about neither a command nor a new clip do not count. -/
theorem quiet (hes : ∀ b ∈ es, b.execution? = none ∧ b.start? = none ∧ b.limit? = none) :
    Reported s [] es where
  executions := by
    rw [List.filterMap_eq_nil_iff.mpr fun b hb => (hes b hb).1]
    exact .refl _
  starts := List.filterMap_eq_nil_iff.mpr fun b hb => (hes b hb).2.1
  limits := List.filterMap_eq_nil_iff.mpr fun b hb => (hes b hb).2.2
  shallow _ hi := absurd hi List.not_mem_nil

theorem still {e : Execution} (he : e.inserted? s.resolve = none) (outcome : Outcome) :
    Reported s [e] [.command e.owner e.command.kind e.command.object outcome] where
  executions := .refl _
  starts := by simp [inserted, he, Event.start?]
  limits := by simp [inserted, he, Event.limit?]
  shallow := by simp [inserted, he]

theorem limited (hr : s.resolve char = some (.timeline t)) (hd : d = s.options.maxNestingDepth) :
    Reported s [⟨h, d, .place char object before m⟩]
      [.nestingLimit h object (d + 1), .command h .place object outcome] where
  executions := .refl _
  starts := by simp [inserted_place hr, hd, Event.start?]
  limits := by simp [inserted_place hr, hd, Event.limit?]
  shallow := by simp [inserted_place hr, hd]

/-- A clip placed above the limit is reported to start, before what it does in its first play, and then
its placement. -/
theorem started (hr : s.resolve char = some (.timeline t)) (hd : d < s.options.maxNestingDepth)
    (hnested : Reported s log es) :
    Reported s (⟨h, d, .place char object before m⟩ :: log)
      (.spawn h child object char :: (es ++ [.command h .place object outcome])) where
  executions := by
    rw [List.filterMap_cons_none rfl, List.filterMap_append, List.map_cons]
    exact (hnested.executions.append_right _).trans (List.perm_append_singleton _ _)
  starts := by
    have hstart : (Event.spawn h child object char).start? = some (h, object, char) := rfl
    rw [inserted_place hr, List.filterMap_cons_some hstart, List.filterMap_append, hnested.starts,
      List.filter_cons_of_pos (by simp only [decide_eq_true_eq]; omega)]
    simp [Event.start?]
  limits := by
    rw [inserted_place hr, List.filterMap_cons_none rfl, List.filterMap_append, hnested.limits,
      List.filter_cons_of_neg (by simpa using Nat.ne_of_lt hd)]
    simp [Event.limit?]
  shallow := by
    rw [inserted_place hr]
    exact List.forall_mem_cons.mpr ⟨by dsimp only; omega, hnested.shallow⟩

end Reported

/-- What a run has reported since an earlier point is a log. -/
def Run.Discloses (s : Setting) (r r' : Run) (log : List Execution) : Prop :=
  ∃ es, r.Emits r' es ∧ Reported s log es

section Runs

variable {s : Setting} {r r' r'' : Run} {log log' : List Execution} {b : Event}

theorem Run.Discloses.refl (s : Setting) (r : Run) : r.Discloses s r [] :=
  ⟨[], .refl r, .nil s⟩

theorem Run.Discloses.trans (h : r.Discloses s r' log) (h' : r'.Discloses s r'' log') :
    r.Discloses s r'' (log ++ log') := by
  obtain ⟨es, hes, hreport⟩ := h
  obtain ⟨es', hes', hreport'⟩ := h'
  exact ⟨es ++ es', hes.trans hes', hreport.append hreport'⟩

theorem Run.discloses_still {h : Handle} {d : Nat} {c : Command}
    (hc : (Execution.mk h d c).inserted? s.resolve = none) (r : Run) (outcome : Outcome) :
    r.Discloses s (r.emit (.command h c.kind c.object outcome)) [⟨h, d, c⟩] :=
  ⟨_, r.emits_emit _, .still hc outcome⟩

end Runs

/-- A player reports a ledger, where the tree is linked with the arena. -/
structure Player.Discloses (s : Setting) (main : Timeline) (p : Player) (ledger : Ledger) : Prop where
  links : p.Links s main
  plays : ∀ {parent d h n r}, Linked s main r.arena parent d h n.children →
    (p h n r).2.arena.Fits → r.Discloses s (p h n r).2 (ledger d h n r)

section Layers

variable {s : Setting} {main : Timeline} {p : Player} {ledger : Ledger} {parent : Option Handle}
  {d : Nat} {h : Handle} {n : Node} {r : Run} {x : Animation}

/-- A placed clip is reported with what it plays, and then its placement is. -/
theorem spawn_discloses (hp : p.Discloses s main ledger)
    (hl : Linked s main r.arena parent d h n.children) (hx : r.arena.get? h = some x) {char : CharId}
    {t : Timeline} (hr : s.resolve char = some (.timeline t)) {object : ObjectId}
    (before : Option ObjectId) (m : Geometry.Matrix) (hnew : object ∉ n.childIds)
    (hdecl : x.timeline.Declares object)
    (hfit : (spawn s p h char t
      { id := object, kind := .clip char none, transform := m.decompose } r).2.arena.Fits)
    (outcome : Outcome) :
    r.Discloses s
      ((spawn s p h char t
        { id := object, kind := .clip char none, transform := m.decompose } r).2.emit
          (.command h .place object outcome))
      ((Command.place char object before m).ledger s ledger d h r) := by
  rw [Command.ledger_of_timeline hr]
  by_cases hd : s.options.maxNestingDepth < r.spawnDepth h
  · rw [spawn_of_lt hd, spawnLedger_of_lt hd]
    rw [hl.spawnDepth] at hd ⊢
    obtain ⟨-, -, -, hwithin, -, -, -, -, -, -⟩ := hl.driven
    exact ⟨_, (r.emits_emit _).trans (Run.emits_emit _ _), .limited hr (by omega)⟩
  · have hd := Nat.le_of_not_lt hd
    rw [spawn_of_le hd] at hfit ⊢
    rw [spawnLedger_of_le hd]
    rw [hl.spawnDepth] at hd hfit ⊢
    dsimp only at hfit ⊢
    generalize hb : ({
      id := object
      kind := .clip char (some (r.arena.spawn t h (d + 1)).1)
      transform := m.decompose } : Node) = b at hfit ⊢
    generalize hr' : r.start t h (d + 1) object char = r' at hfit ⊢
    have harena : r'.arena = (r.arena.spawn t h (d + 1)).2 := hr' ▸ rfl
    have hbg : b.animator? = some (r.arena.spawn t h (d + 1)).1 := hb ▸ rfl
    have hroom : (r.arena.spawn t h (d + 1)).2.Fits := harena ▸ hfit.mono (hp.links.grows _ b r')
    obtain ⟨hstart, -⟩ := start_settles hl hx hr hd object (hb ▸ hnew) (hb ▸ hdecl) hbg (hb ▸ rfl)
      hroom
    rw [hr'] at hstart
    have hfirst : r.Emits r' [.spawn h (r.arena.spawn t h (d + 1)).1 object char] :=
      hr' ▸ Run.emits_emit _ _
    obtain ⟨es, hes, hreport⟩ := hp.plays (hstart.linked.clip hbg) hfit
    exact ⟨_, hfirst.trans (hes.trans (Run.emits_emit _ _)), .started hr hd hreport⟩

theorem settle_discloses (hp : p.Discloses s main ledger)
    (hl : Linked s main r.arena parent d h n.children) (hx : r.arena.get? h = some x) {c : Command}
    (hnew : ∀ id, c.placed? = some id → id ∉ n.childIds)
    (hdecl : ∀ id, c.placed? = some id → x.timeline.Declares id)
    (hfit : (c.settle s p h n r).arena.Fits) (outcome : Outcome) :
    r.Discloses s ((c.settle s p h n r).emit (.command h c.kind c.object outcome))
      (c.ledger s ledger d h r) := by
  cases c with
  | place char object before m =>
    by_cases hr : ∃ t, s.resolve char = some (.timeline t)
    · obtain ⟨t, hr⟩ := hr
      rw [Command.settle, enter_of_timeline hr] at hfit ⊢
      exact spawn_discloses hp hl hx hr before m (hnew object rfl) (hdecl object rfl) hfit outcome
    · have hr : ∀ t, s.resolve char ≠ some (.timeline t) := fun t ht => hr ⟨t, ht⟩
      have hc := Execution.inserted?_of_still hr h d object before m
      rw [Command.settle, (enter_of_still (p := p) (h := h) (r := r) hr object m).1,
        Command.ledger_of_still hc]
      exact r.discloses_still hc outcome
  | remove object =>
    obtain ⟨es, hes, hall⟩ := retireAll_emits
      ((n.children.filter (·.id = object)).filterMap Node.animator?) .removed r
    have hretired : r.Discloses s ((Command.remove object).settle s p h n r) [] := by
      refine ⟨es, hes, .quiet fun b hb => ?_⟩
      obtain ⟨g, -, slots, rfl⟩ := hall b hb
      exact ⟨rfl, rfl, rfl⟩
    rw [Command.ledger_of_still rfl]
    exact hretired.trans (Run.discloses_still rfl _ outcome)
  | _ =>
    rw [Command.ledger_of_still rfl]
    exact r.discloses_still rfl outcome

theorem executeAll_discloses (hp : p.Discloses s main ledger) (t : Timeline) (cmds : List Command)
    (hl : Linked s main r.arena parent d h n.children)
    (hx : ∃ x, r.arena.get? h = some x ∧ x.timeline = t) (hnew : Command.Fresh n.childIds cmds)
    (hdecl : ∀ c ∈ cmds, ∀ id, c.placed? = some id → t.Declares id)
    (hfit : (Command.executeAll s p h cmds n r).2.arena.Fits) :
    r.Discloses s (Command.executeAll s p h cmds n r).2
      (Command.ledgerAll s p ledger d h cmds n r) := by
  induction cmds generalizing n r with
  | nil => exact .refl s r
  | cons c cmds ih =>
    obtain ⟨x, hx, rfl⟩ := hx
    rw [Command.executeAll_cons] at hfit ⊢
    rw [Command.ledgerAll_cons]
    have hroom := hfit.mono (executeAll_grows hp.links.grows h cmds _ _)
    have hplaced := hdecl c List.mem_cons_self
    have hreport := settle_discloses hp hl hx hnew.1 hplaced hroom (c.execute s p h n r).1
    obtain ⟨hfirst, -⟩ := settle_settles hp.links hl hx hnew.1 hplaced hroom
    obtain ⟨l, howner⟩ := hfirst.owner hx
    have hnew' := hnew.2
    rw [← childIds_arrange (s := s) hp.links.head h c n r] at hnew'
    generalize hrun : Run.emit _ (.command h c.kind c.object _) = run at hfit hreport ⊢
    have harena : run.arena = (c.settle s p h n r).arena := hrun ▸ rfl
    rw [← harena] at hfirst howner
    exact hreport.trans (ih hfirst.linked ⟨_, howner, rfl⟩ hnew'
      (fun c' hc' => hdecl c' (List.mem_cons_of_mem _ hc')) hfit)

theorem playChildren_discloses (hp : p.Discloses s main ledger) (gs : List Handle)
    (hl : Linked s main r.arena parent d h n.children) (hin : ∀ g ∈ gs, g ∈ hosted n.children)
    (hfit : (playChildren s p gs n r).2.arena.Fits) :
    r.Discloses s (playChildren s p gs n r).2 (childrenLedger s p ledger d gs n r) := by
  induction gs generalizing n r with
  | nil => exact .refl s r
  | cons g gs ih =>
    obtain ⟨pre, c, post, hcs, hg, hplay, hledger⟩ :=
      childrenLedger_cons s p ledger d gs (hin g List.mem_cons_self) r
    rw [hplay] at hfit ⊢
    rw [hledger]
    have hroom := hfit.mono (playChildren_grows hp.links.grows gs _ _)
    obtain ⟨hturn, -, -⟩ := hl.turn hp.links hcs hg hroom
    have hhosted : ∀ k ∈ gs, k ∈ hosted (pre ++ (p g c r).1 :: post) := by
      rw [Node.hosted_exchange (hp.links.head g c r), ← hcs]
      exact fun k hk => hin k (List.mem_cons_of_mem _ hk)
    exact (hp.plays (hl.clip_of_split hcs hg) hroom).trans (ih hturn.linked hhosted hfit)

theorem playFrame_discloses (hp : p.Discloses s main ledger)
    (hl : Linked s main r.arena parent d h n.children) (hx : r.arena.get? h = some x)
    (hfit : (playFrame s p h x.timeline n r).2.arena.Fits) :
    r.Discloses s (playFrame s p h x.timeline n r).2
      (frameLedger s p ledger d h x.timeline n r) := by
  cases hframe : x.timeline.frames[if x.cursor = x.timeline.frameCount then 0 else x.cursor]? with
  | none =>
    rw [playFrame_of_none s p hx hframe]
    simp only [frameLedger, hx, hframe]
    exact .refl s r
  | some frame =>
    rw [playFrame_eq s p hx hframe] at hfit ⊢
    rw [frameLedger_eq s p ledger d hx hframe]
    dsimp only at hfit ⊢
    rw [Arena.Fits, Run.size_advance] at hfit
    generalize (if x.cursor = x.timeline.frameCount then 0 else x.cursor) = number at hfit ⊢
    generalize hf : Plan.report _ h number _ = f at hfit ⊢
    have hreport : r.Discloses s ((r.seek h number).emit (.frame f)) [] := by
      refine ⟨[.frame f], Run.emits_emit _ _, .quiet fun b hb => ?_⟩
      rw [List.mem_singleton.mp hb]
      exact ⟨rfl, rfl, rfl⟩
    exact hreport.trans (executeAll_discloses hp x.timeline _ (hl.seek number)
      ⟨_, Run.get?_seek hx number, rfl⟩ (Plan.fresh_ofFrame n.childIds frame _)
      (Plan.declares_of_mem_ofFrame hframe) hfit)

theorem playStep_discloses (hp : p.Discloses s main ledger) :
    (playStep s p).Discloses s main (stepLedger s p ledger) where
  links := playStep_links hp.links
  plays {parent d h n r} hl hfit := by
    obtain ⟨x, hx, -, -⟩ := hl.driven.get?
    unfold stepLedger
    simp only [hx]
    by_cases hcount : x.timeline.frameCount = 0
    · rw [playStep_of_empty s p hx hcount, if_pos hcount]
      exact .refl s r
    · rw [playStep_eq s p hx hcount] at hfit ⊢
      rw [if_neg hcount]
      dsimp only at hfit ⊢
      have hin := (hl.driven.perm_hosted hx).subset
      have hroom := hfit.mono (playFrame_grows hp.links.grows h x.timeline _ _)
      obtain ⟨hchildren, howner, -⟩ := playChildren_settles hp.links x.children hl
        (fun _ hg => hin hg) hroom
      exact (playChildren_discloses hp x.children hl (fun _ hg => hin hg) hroom).trans
        (playFrame_discloses hp hchildren.linked (howner.trans hx) hfit)

end Layers

/-- A play reports its ledger. -/
theorem playChain_discloses (s : Setting) (main : Timeline) (m : Nat) :
    (playChain s idle m).Discloses s main (chainLedger s m) := by
  induction m with
  | zero => exact ⟨playChain_links s main 0, fun {_ _ _ _ r} _ _ => .refl s r⟩
  | succ m ih => exact playStep_discloses ih

end SceneReel
