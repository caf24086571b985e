import SceneReel.Proofs.Playback.Laps
import SceneReel.Proofs.Playback.LinkedPlay

/-!
Playing keeps the tally of laps, whatever the trees. An animator may play unless it is busy; amid the frame
of another one it may play only if it lists no children, as the new animator of a clip does. So there is a
frame for every cursor, and what playback would do without one does not matter.
-/
namespace SceneReel

section Missing

variable (missing : Node → Run → Node × Run)

/-- `playFrame`, doing something of its own where the timeline has no frame for the cursor. -/
def playFrameOr (s : Setting) (player : Player) (h : Handle) (timeline : Timeline) (target : Node)
    (run : Run) : Node × Run :=
  match run.arena.get? h with
  | none => (target, run)
  | some x =>
    let looped := x.cursor == timeline.frameCount
    let number := if looped then 0 else x.cursor
    let run := { run with arena := run.arena.modify h fun x => { x with cursor := number } }
    match timeline.frames[number]? with
    | none => missing target run
    | some frame =>
      let plan := Plan.ofFrame target.childIds frame looped
      let run := run.emit (.frame
        { animator := h, frame := number, looped, pruned := plan.pruned,
          commands := plan.commands.length, unsupported := plan.unsupported })
      let (target, run) := Command.executeAll s player h plan.commands target run
      (target, { run with
        arena := run.arena.modify h fun x => { x with cursor := x.cursor + 1 } })

def playStepOr (s : Setting) (player : Player) : Player := fun h target run =>
  match run.arena.get? h with
  | none => (target, run)
  | some x =>
    if x.timeline.frameCount = 0 then (target, run)
    else
      let (target, run) := playChildren s player x.children target run
      playFrameOr missing s player h x.timeline target run

def playChainOr (s : Setting) (innermost : Player) : Nat → Player
  | 0 => innermost
  | n + 1 => playStepOr missing s (playChainOr s innermost n)

/-- `play`, doing something of its own wherever a timeline has no frame for a cursor. -/
def playOr (s : Setting) : Player := fun h target run =>
  playChainOr missing s idle (nestingBound s target) h target run

end Missing

/-- Playback itself does nothing where there is no frame. -/
theorem play_eq_playOr (s : Setting) : play s = playOr (fun target run => (target, run)) s := by
  have hchain : ∀ n, playChain s idle n = playChainOr (fun target run => (target, run)) s idle n := by
    intro n
    induction n with
    | zero => rfl
    | succ n ih =>
      rw [playChain, ih]
      rfl
  funext h target run
  rw [play, hchain]
  rfl

theorem playFrameOr_eq (missing : Node → Run → Node × Run) (s : Setting) (p : Player) {h : Handle}
    {t : Timeline} {x : Animation} {frame : Frame} {n : Node} {r : Run}
    (hx : r.arena.get? h = some x)
    (hframe : t.frames[if x.cursor = t.frameCount then 0 else x.cursor]? = some frame) :
    playFrameOr missing s p h t n r = playFrame s p h t n r := by
  unfold playFrame playFrameOr
  simp only [hx, beq_iff_eq, hframe]

variable {s : Setting} {before : List (Handle × Timeline)} {past : List Event} {busy : List Handle}
  {p q : Player} {h owner : Handle} {n : Node} {r : Run} {missing : Node → Run → Node × Run}

/-- A player that keeps the tally of the animators it may play, and that does so as another does. -/
structure Player.Tallies (s : Setting) (before : List (Handle × Timeline)) (past : List Event)
    (p q : Player) : Prop where
  obeys : p.Obeys s
  plays : ∀ {busy h n r}, r.Accounted s before → r.Tally s before past busy →
    (p h n r).2.Sparing s before → h ∉ busy →
    (busy = [] ∨ ∀ x, r.arena.get? h = some x → x.children = []) →
    q h n r = p h n r ∧ (p h n r).2.Tally s before past busy

section Commands

theorem spawn_tally (hp : p.Tallies s before past q) (hr : r.Accounted s before)
    (ht : r.Tally s before past busy) (hb : owner ∈ busy) {char : CharId} {t : Timeline}
    (hchar : s.resolve char = some (.timeline t))
    (hspare : (spawn s p owner char t n r).2.Sparing s before) :
    spawn s q owner char t n r = spawn s p owner char t n r ∧
      (spawn s p owner char t n r).2.Tally s before past busy := by
  by_cases hd : s.options.maxNestingDepth < r.spawnDepth owner
  · rw [spawn_of_lt hd, spawn_of_lt hd]
    exact ⟨rfl, ht.emit rfl fun f => by simp⟩
  · have hd := Nat.le_of_not_lt hd
    rw [spawn_of_le hd] at hspare
    rw [spawn_of_le hd, spawn_of_le hd]
    have hspare' := hspare.earlier (hp.obeys.later _ _ _)
    have hfresh := hr.fresh hchar owner n.id hspare'
    refine hp.plays ((Run.keeps_accounted s before).start hr hchar owner n.id)
      (ht.start hr hchar owner n.id hspare') hspare (fun hin => hfresh (ht.known _ hin))
      (.inr fun x hx => ?_)
    rw [Run.arena_start] at hx
    rcases hr.stored.get?_of_get?_spawn hspare'.1 hx with ⟨-, -, hchildren⟩ | ⟨y, hy, -⟩
    · refine hchildren fun he => hfresh ?_
      rw [he]
      exact ht.known owner hb
    · exact absurd (List.mem_map_of_mem (ht.live hy).1) hfresh

theorem enter_tally (hp : p.Tallies s before past q) (hr : r.Accounted s before)
    (ht : r.Tally s before past busy) (hb : owner ∈ busy) (char : CharId) (object : ObjectId)
    (m : Geometry.Matrix)
    (hspare : (Command.enter s p owner char object m r).2.Sparing s before) :
    Command.enter s q owner char object m r = Command.enter s p owner char object m r ∧
      (Command.enter s p owner char object m r).2.Tally s before past busy := by
  by_cases hchar : ∃ t, s.resolve char = some (.timeline t)
  · obtain ⟨t, hchar⟩ := hchar
    rw [enter_of_timeline hchar] at hspare
    rw [enter_of_timeline hchar, enter_of_timeline hchar]
    exact spawn_tally hp hr ht hb hchar hspare
  · have hchar : ∀ t, s.resolve char ≠ some (.timeline t) := fun t ht => hchar ⟨t, ht⟩
    rw [(enter_of_still hchar object m).1, (enter_of_still hchar object m).1]
    exact ⟨rfl, ht⟩

theorem retireAll_tally (gs : List Handle) (reason : RetireReason)
    (ht : r.Tally s before past busy) :
    (gs.foldl (Run.retire · reason) r).Tally s before past busy := by
  induction gs generalizing r with
  | nil => exact ht
  | cons g gs ih => exact ih (ht.retire reason g)

theorem execute_tally (hp : p.Tallies s before past q) (hr : r.Accounted s before)
    (ht : r.Tally s before past busy) (hb : owner ∈ busy) (c : Command)
    (hspare : (c.settle s p owner n r).Sparing s before) :
    c.execute s q owner n r = c.execute s p owner n r ∧
      (c.settle s p owner n r).Tally s before past busy := by
  cases c with
  | place char object before m =>
    obtain ⟨heq, htally⟩ := enter_tally hp hr ht hb char object m hspare
    have hplace : ∀ p : Player, (Command.place char object before m).execute s p owner n r =
        (Command.placeOutcome (s.resolve char) before n,
          (n.insertBefore (Command.enter s p owner char object m r).1 before).2,
          (Command.enter s p owner char object m r).2) := fun _ => rfl
    rw [hplace, hplace, heq]
    exact ⟨rfl, htally⟩
  | remove object => exact ⟨rfl, retireAll_tally _ _ ht⟩
  | _ => exact ⟨rfl, ht⟩

theorem executeAll_tally (hp : p.Tallies s before past q) (hr : r.Accounted s before)
    (ht : r.Tally s before past busy) (hb : owner ∈ busy) (cs : List Command)
    (hspare : (Command.executeAll s p owner cs n r).2.Sparing s before) :
    Command.executeAll s q owner cs n r = Command.executeAll s p owner cs n r ∧
      (Command.executeAll s p owner cs n r).2.Tally s before past busy := by
  induction cs generalizing n r with
  | nil => exact ⟨rfl, ht⟩
  | cons c cs ih =>
    have hcons : ∀ p : Player, Command.executeAll s p owner (c :: cs) n r =
        Command.executeAll s p owner cs (c.execute s p owner n r).2.1
          ((c.execute s p owner n r).2.2.emit
            (.command owner c.kind c.object (c.execute s p owner n r).1)) := fun _ => rfl
    have hsettled : (c.execute s p owner n r).2.2 = c.settle s p owner n r :=
      congrArg Prod.snd (Command.execute_eq s p owner n r c)
    rw [hcons p, hsettled] at hspare
    have hlater := executeAll_keeps (Run.keeps_later s (c.settle s p owner n r))
      (hp.obeys _ (Run.keeps_later s _)) owner cs (c.execute s p owner n r).2.1
      ((Run.keeps_later s _).emit (e := .command owner c.kind c.object
        (c.execute s p owner n r).1) (.refl _) rfl)
    obtain ⟨heq, htally⟩ := execute_tally hp hr ht hb c (hspare.earlier hlater)
    rw [hcons q, hcons p, heq, hsettled]
    refine ih ?_ (htally.emit rfl fun f => by simp) hspare
    refine (Run.keeps_accounted s before).emit ?_ rfl
    exact settle_keeps (Run.keeps_accounted s before) (hp.obeys _ (Run.keeps_accounted s before))
      owner c n hr

theorem playChildren_tally (hp : p.Tallies s before past q) (hr : r.Accounted s before)
    (ht : r.Tally s before past []) (gs : List Handle)
    (hspare : (playChildren s p gs n r).2.Sparing s before) :
    playChildren s q gs n r = playChildren s p gs n r ∧
      (playChildren s p gs n r).2.Tally s before past [] := by
  induction gs generalizing n r with
  | nil => exact ⟨rfl, ht⟩
  | cons g gs ih =>
    rw [playChildren] at hspare
    rw [playChildren, playChildren]
    cases hu : n.updateChild? (·.animator? = some g) (p g · r) with
    | none =>
      have hnone : n.updateChild? (·.animator? = some g) (q g · r) = none :=
        Node.updateChild?_eq_none_iff.mpr (Node.updateChild?_eq_none_iff.mp hu)
      rw [hu] at hspare
      rw [hnone]
      dsimp only at hspare ⊢
      cases hdetach : s.options.retireDetached with
      | false =>
        rw [hdetach] at hspare
        exact ih hr ht hspare
      | true =>
        rw [hdetach] at hspare
        exact ih ((Run.keeps_accounted s before).retire hr _ g) (ht.retire _ g) hspare
    | some out =>
      obtain ⟨n', r'⟩ := out
      rw [hu] at hspare
      dsimp only at hspare ⊢
      obtain ⟨c, -, -, rfl, hfirst⟩ := Node.updateChild?_first hu
      have hlater := playChildren_keeps (Run.keeps_later s (p g c r).2)
        (hp.obeys _ (Run.keeps_later s _)) gs n' (.refl _)
      obtain ⟨heq, htally⟩ := hp.plays hr ht (hspare.earlier hlater) List.not_mem_nil (.inl rfl)
      rw [hfirst (q g · r) heq]
      exact ih (hp.obeys.accounted g c hr) htally hspare

theorem playFrame_tally (hp : p.Tallies s before past q) (hr : r.Accounted s before)
    (ht : r.Tally s before past busy) (hb : h ∉ busy) {t : Timeline} (hcount : t.frameCount ≠ 0)
    (hx : ∀ x, r.arena.get? h = some x → x.timeline = t)
    (hspare : (playFrame s p h t n r).2.Sparing s before) :
    playFrameOr missing s q h t n r = playFrame s p h t n r ∧
      (playFrame s p h t n r).2.Tally s before past busy := by
  cases hlive : r.arena.get? h with
  | none =>
    rw [playFrame_of_dead s p hlive, playFrameOr, hlive]
    exact ⟨rfl, ht⟩
  | some x =>
    obtain rfl := hx x hlive
    have hnumber := (ht.next hlive hcount hb).2
    obtain ⟨frame, hframe⟩ : ∃ frame, x.timeline.frames[if x.cursor = x.timeline.frameCount then 0
        else x.cursor]? = some frame := by
      rw [hnumber]
      exact ⟨_, List.getElem?_eq_getElem (Nat.mod_lt _ (Nat.pos_of_ne_zero hcount))⟩
    rw [playFrame_eq s p hlive hframe] at hspare
    rw [playFrameOr_eq missing s q hlive hframe, playFrame_eq s q hlive hframe,
      playFrame_eq s p hlive hframe]
    dsimp only at hspare ⊢
    generalize (Plan.ofFrame n.childIds frame (x.cursor == x.timeline.frameCount)) = plan at hspare ⊢
    have hkeeps := Run.keeps_accounted s before
    have hlater := Run.keeps_later s
    have hspare := hspare.earlier ((hlater _).advance (.refl _) h)
    have hnow := hspare.earlier (executeAll_keeps (hlater r) (hp.obeys _ (hlater r)) h plan.commands n
      ((hlater r).emit ((hlater r).seek (.refl r) h _) rfl))
    obtain ⟨heq, htally⟩ := executeAll_tally hp (hkeeps.emit (hkeeps.seek hr h _) rfl)
      (ht.frame hr hnow hlive hcount hb plan rfl) List.mem_cons_self plan.commands hspare
    rw [heq]
    exact ⟨rfl, htally.advance hb⟩

end Commands

theorem playStep_tally (hp : p.Tallies s before past q) :
    (playStep s p).Tallies s before past (playStepOr missing s q) where
  obeys P hs := playStep_keeps hs (hp.obeys P hs)
  plays {busy h n r} hr ht hspare hb hfree := by
    unfold playStepOr
    cases hx : r.arena.get? h with
    | none =>
      rw [playStep_of_dead s p hx]
      exact ⟨rfl, ht⟩
    | some x =>
      dsimp only
      by_cases hcount : x.timeline.frameCount = 0
      · rw [playStep_of_empty s p hx hcount, if_pos hcount]
        exact ⟨rfl, ht⟩
      · rw [playStep_eq s p hx hcount] at hspare ⊢
        rw [if_neg hcount]
        dsimp only at hspare ⊢
        have hlater := playFrame_keeps (Run.keeps_later s (playChildren s p x.children n r).2)
          (hp.obeys _ (Run.keeps_later s _)) h x.timeline (playChildren s p x.children n r).1
          (.refl _)
        have hroom := hspare.earlier hlater
        have hchildren : playChildren s q x.children n r = playChildren s p x.children n r ∧
            (playChildren s p x.children n r).2.Tally s before past busy := by
          rcases hfree with rfl | hnone
          · exact playChildren_tally hp hr ht x.children hroom
          · rw [hnone x hx]
            exact ⟨rfl, ht⟩
        obtain ⟨heq, htally⟩ := hchildren
        have hr' := playChildren_keeps (Run.keeps_accounted s before)
          (hp.obeys _ (Run.keeps_accounted s before)) x.children n hr
        have hcast := (playChildren_keeps (Run.keeps_later s r)
          (hp.obeys _ (Run.keeps_later s r)) x.children n (.refl r)).cast_sublist s before |>.subset
        rw [heq]
        refine playFrame_tally hp hr' htally hb hcount (fun y hy => ?_) hspare
        -- a handle stands for one timeline, whatever has played meanwhile
        have hsame : (h, y.timeline) = (h, x.timeline) := List.inj_on_of_nodup_map
          (hr'.nodup hroom) (htally.live hy).1 (hcast (ht.live hx).1) rfl
        exact (Prod.mk.inj hsame).2

theorem playChain_tally (s : Setting) (before : List (Handle × Timeline)) (past : List Event)
    (missing : Node → Run → Node × Run) (n : Nat) :
    (playChain s idle n).Tallies s before past (playChainOr missing s idle n) := by
  induction n with
  | zero => exact ⟨playChain_obeys s 0, fun _ ht _ _ _ => ⟨rfl, ht⟩⟩
  | succ n ih => exact playStep_tally ih

end SceneReel
