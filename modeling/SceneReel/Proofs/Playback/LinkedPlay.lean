import SceneReel.Proofs.Playback.Linked
import SceneReel.Proofs.Timeline.Fresh

/-!
Playing keeps the link. Each command does, since the plan places only what is not there; so does a frame,
and, the nested animators being of one kind with those that spawned them, so does a chain of players.
-/
namespace SceneReel

open Node (hosted carriedAll)

def Run.Undetached (r : Run) : Prop :=
  ∀ h slots, Event.retire h slots .detached ∉ r.events

theorem Run.Undetached.emit {r : Run} (hr : r.Undetached) {e : Event}
    (he : ∀ h slots, e ≠ .retire h slots .detached) : (r.emit e).Undetached := by
  intro h slots hin
  rcases Array.mem_push.mp hin with hin | hin
  · exact hr h slots hin
  · exact he h slots hin.symm

theorem Run.Undetached.retire {r : Run} (hr : r.Undetached) (h : Handle) :
    (r.retire .removed h).Undetached := by
  intro k slots hin
  rcases Run.mem_events_retire hin with hin | ⟨_, he⟩
  · exact hr k slots hin
  · cases he

theorem Arena.Fits.mono {a a' : Arena} (h : a'.Fits) (hle : a.slots.size ≤ a'.slots.size) :
    a.Fits :=
  Nat.le_trans hle h

/-- A play keeps the link, and nothing outside changes or is reported detached. -/
structure Plays (s : Setting) (main : Timeline) (parent : Option Handle) (d : Nat) (h : Handle)
    (n : Node) (r : Run) (n' : Node) (r' : Run) : Prop where
  linked : Linked s main r'.arena parent d h n'.children
  confined : Confined r.arena (h :: n.handles) r'.arena (h :: n'.handles)
  undetached : r.Undetached → r'.Undetached

/-- A player that keeps the link of all it is given, while the arena has room. -/
structure Player.Links (s : Setting) (main : Timeline) (p : Player) : Prop where
  head : p.KeepsHead
  grows : p.Grows
  plays : ∀ {parent d h n r}, Linked s main r.arena parent d h n.children → (p h n r).2.arena.Fits →
    Plays s main parent d h n r (p h n r).1 (p h n r).2

section Commands

variable {s : Setting} {main : Timeline} {p : Player} {parent : Option Handle} {d : Nat}
  {h : Handle} {n : Node} {r : Run} {x : Animation}

theorem retireAll_settles (removed kept : List Node) (r : Run)
    (hl : Linked s main r.arena parent d h (removed ++ kept)) :
    Settles s main parent d h r.arena (removed ++ kept)
      (((removed.filterMap Node.animator?).foldl (Run.retire · .removed) r).arena) kept ∧
    Confined r.arena (h :: carriedAll removed)
      (((removed.filterMap Node.animator?).foldl (Run.retire · .removed) r).arena) [h] ∧
    (r.Undetached → ((removed.filterMap Node.animator?).foldl (Run.retire · .removed) r).Undetached) := by
  induction removed generalizing r with
  | nil => exact ⟨hl.settles_of_perm (.refl _), .refl _ _, id⟩
  | cons c removed ih =>
    rw [List.filterMap_cons]
    cases hg : c.animator? with
    | none =>
      have hfirst := hl.tail_of_bare hg
      obtain ⟨hrest, hconf, hevents⟩ := ih r hfirst.linked
      have hcarried : c.carried = [] := by
        obtain ⟨-, -, -, -, -, -, -, -, bare, -⟩ := hl.driven
        rw [Node.carried_eq, hg, Node.handles, (bare c List.mem_cons_self hg).1]
        rfl
      rw [Node.carriedAll_cons, hcarried]
      exact ⟨hfirst.trans hrest, hconf, hevents⟩
    | some g =>
      have hfirst := hl.retire hg
      have hfirstConf := hl.retire_confined hg
      rw [← Run.arena_retire r .removed g] at hfirst hfirstConf
      obtain ⟨hrest, hconf, hevents⟩ := ih (r.retire .removed g) hfirst.linked
      exact ⟨hfirst.trans hrest, (hfirstConf.append_right (carriedAll removed)).trans hconf,
        fun hr => hevents (hr.retire g)⟩

theorem Linked.spawnDepth (hl : Linked s main r.arena parent d h n.children) :
    r.spawnDepth h = d + 1 := by
  obtain ⟨x, hx, -, hdepth⟩ := hl.driven.get?
  simp [Run.spawnDepth, hx, hdepth]

theorem Linked.enter_of_le (hl : Linked s main r.arena parent d h n.children) {char : CharId}
    {t : Timeline} (hr : s.resolve char = some (.timeline t)) (hd : s.options.maxNestingDepth ≤ d)
    (object : ObjectId) (m : Geometry.Matrix) :
    Command.enter s p h char object m r =
      ({ id := object, kind := .clip char none, transform := m.decompose },
        r.emit (.nestingLimit h object (d + 1))) := by
  have hdeep : s.options.maxNestingDepth < r.spawnDepth h := by
    rw [hl.spawnDepth]
    omega
  rw [enter_of_timeline hr, spawn_of_lt hdeep, hl.spawnDepth]

/-- Above the nesting limit a clip enters with an animator, which plays at once. -/
theorem Linked.enter_of_lt (hl : Linked s main r.arena parent d h n.children) {char : CharId}
    {t : Timeline} (hr : s.resolve char = some (.timeline t)) (hd : d < s.options.maxNestingDepth)
    (object : ObjectId) (m : Geometry.Matrix) :
    Command.enter s p h char object m r =
      p (r.arena.spawn t h (d + 1)).1
        { id := object, kind := .clip char (some (r.arena.spawn t h (d + 1)).1)
          transform := m.decompose }
        (r.start t h (d + 1) object char) := by
  have hroom : r.spawnDepth h ≤ s.options.maxNestingDepth := by
    rw [hl.spawnDepth]
    omega
  rw [enter_of_timeline hr, spawn_of_le hroom, hl.spawnDepth]

/-- A clip enters with an animator that has not played yet. -/
theorem start_settles (hl : Linked s main r.arena parent d h n.children)
    (hx : r.arena.get? h = some x) {char : CharId} {t : Timeline}
    (hr : s.resolve char = some (.timeline t)) (hd : d < s.options.maxNestingDepth)
    (object : ObjectId) {c : Node} (hnew : c.id ∉ n.childIds) (hdecl : x.timeline.Declares c.id)
    (hg : c.animator? = some (r.arena.spawn t h (d + 1)).1) (hempty : c.children = [])
    (hroom : (r.arena.spawn t h (d + 1)).2.Fits) :
    Settles s main parent d h r.arena n.children (r.start t h (d + 1) object char).arena
        (c :: n.children) ∧
      (r.start t h (d + 1) object char).arena.get? h =
        some { x with children := x.children ++ [(r.arena.spawn t h (d + 1)).1] } := by
  obtain ⟨hfresh, hget⟩ := hl.wellFormed.get?_spawn (d := d + 1) hx hroom
  have hne : h ≠ (r.arena.spawn t h (d + 1)).1 := by
    intro he
    rw [← he, hx] at hfresh
    cases hfresh
  rw [Run.arena_start]
  refine ⟨hl.spawn hx hnew hdecl hd hr hroom hg hempty, ?_⟩
  rw [hget, if_neg hne, if_pos rfl]

theorem spawn_settles (hp : p.Links s main) (hl : Linked s main r.arena parent d h n.children)
    (hx : r.arena.get? h = some x) {char : CharId} {t : Timeline} {c : Node}
    (hr : s.resolve char = some (.timeline t)) (hkind : c.kind = .clip char none)
    (hempty : c.children = []) (hnew : c.id ∉ n.childIds) (hdecl : x.timeline.Declares c.id)
    (hfit : (spawn s p h char t c r).2.arena.Fits) :
    Settles s main parent d h r.arena n.children (spawn s p h char t c r).2.arena
      ((spawn s p h char t c r).1 :: n.children) ∧
    Confined r.arena [h] (spawn s p h char t c r).2.arena
      (h :: (spawn s p h char t c r).1.carried) ∧
    (r.Undetached → (spawn s p h char t c r).2.Undetached) := by
  by_cases hd : s.options.maxNestingDepth < r.spawnDepth h
  · rw [spawn_of_lt hd] at hfit ⊢
    rw [hl.spawnDepth] at hd
    obtain ⟨-, -, -, hwithin, -, -, -, -, -, -⟩ := hl.driven
    have hg : c.animator? = none := by rw [Node.animator?, hkind]
    have hcarried : c.carried = [] := by
      rw [Node.carried_eq, hg, Node.handles, hempty]
      rfl
    refine ⟨hl.cons_bare hx hnew hdecl hg ⟨hempty, fun _ _ => ?_⟩, ?_, fun hu => hu.emit (by simp)⟩
    · omega
    · rw [hcarried]
      exact .refl _ _
  · have hd := Nat.le_of_not_lt hd
    rw [spawn_of_le hd] at hfit ⊢
    rw [hl.spawnDepth] at hd hfit ⊢
    generalize hb : ({ c with kind := .clip char (some _) } : Node) = b at hfit ⊢
    generalize hr' : r.start t h (d + 1) c.id char = r' at hfit ⊢
    have harena : r'.arena = (r.arena.spawn t h (d + 1)).2 := hr' ▸ rfl
    have hbg : b.animator? = some (r.arena.spawn t h (d + 1)).1 := hb ▸ rfl
    have hroom : (r.arena.spawn t h (d + 1)).2.Fits := harena ▸ hfit.mono (hp.grows _ b r')
    obtain ⟨hstart, -⟩ := start_settles hl hx hr hd c.id (hb ▸ hnew) (hb ▸ hdecl) hbg
      (hb ▸ hempty) hroom
    rw [hr'] at hstart
    have hstartConf := harena ▸ hl.spawn_confined hroom
    generalize (r.arena.spawn t h (d + 1)).1 = child at hbg hfit hstartConf ⊢
    obtain ⟨hclip, hconf, hevents⟩ := hp.plays (hstart.linked.clip hbg) hfit
    obtain ⟨hplayed, -⟩ := hstart.linked.played hbg (hp.head _ b r') hclip hconf
    refine ⟨hstart.trans hplayed, hstartConf.trans ?_, fun hu => hevents ?_⟩
    · have hcarried : ∀ {b : Node}, b.animator? = some child → ∀ k,
          k ∈ child :: b.handles ++ [h] ↔ k ∈ h :: b.carried := by
        intro b hb k
        rw [Node.carried_eq, hb]
        simp [or_left_comm, or_comm]
      have hnone : b.carried = [child] := by
        rw [Node.carried_eq, hbg, Node.handles, ← hb, hempty]
        rfl
      rw [← hnone]
      have hhead := Node.animator?_of_head (hp.head child b r')
      exact (hconf.append_right [h]).congr (hcarried hbg) (hcarried (hhead.trans hbg))
    · subst hr'
      exact Run.Undetached.emit hu (by simp)

theorem enter_settles (hp : p.Links s main) (hl : Linked s main r.arena parent d h n.children)
    (hx : r.arena.get? h = some x) {char : CharId} {object : ObjectId} {m : Geometry.Matrix}
    (hnew : object ∉ n.childIds) (hdecl : x.timeline.Declares object)
    (hfit : (Command.enter s p h char object m r).2.arena.Fits) :
    Settles s main parent d h r.arena n.children (Command.enter s p h char object m r).2.arena
      ((Command.enter s p h char object m r).1 :: n.children) ∧
    Confined r.arena [h] (Command.enter s p h char object m r).2.arena
      (h :: (Command.enter s p h char object m r).1.carried) ∧
    (r.Undetached → (Command.enter s p h char object m r).2.Undetached) := by
  by_cases hr : ∃ t, s.resolve char = some (.timeline t)
  · obtain ⟨t, hr⟩ := hr
    rw [enter_of_timeline hr] at hfit ⊢
    exact spawn_settles hp hl hx hr rfl rfl hnew hdecl hfit
  · have hr : ∀ t, s.resolve char ≠ some (.timeline t) := fun t ht => hr ⟨t, ht⟩
    obtain ⟨he, hclip⟩ := enter_of_still (p := p) (h := h) (r := r) hr object m
    rw [he]
    have hg : ∀ t : Geometry.Transform, Node.animator?
        ⟨object, .ofResolved char (s.resolve char), t, true, []⟩ = none := by
      intro t
      unfold Node.animator?
      split
      · exact absurd ‹_› (hclip _ _)
      · rfl
    refine ⟨hl.cons_bare hx hnew hdecl (hg _) ⟨rfl, fun clip hk => absurd hk (hclip clip none)⟩,
      ?_, id⟩
    rw [Node.carried_eq, hg]
    exact .refl _ _

/-- Commands that neither place nor remove leave the link as it is. -/
theorem arrange_settles (hl : Linked s main r.arena parent d h n.children) {c : Command}
    {new : CharId → ObjectId → Geometry.Matrix → Node} (hp : c.placed? = none)
    (hr : c.removed? = none) :
    Settles s main parent d h r.arena n.children r.arena
      (c.arrange Command.nodes new n.children) :=
  hl.settles_of_core (Command.arrange_core_perm hp hr).symm

/-- A command keeps the link if it places only what is not there and is declared. -/
theorem settle_settles (hp : p.Links s main) (hl : Linked s main r.arena parent d h n.children)
    (hx : r.arena.get? h = some x) {c : Command}
    (hnew : ∀ id, c.placed? = some id → id ∉ n.childIds)
    (hdecl : ∀ id, c.placed? = some id → x.timeline.Declares id)
    (hfit : (c.settle s p h n r).arena.Fits) :
    Settles s main parent d h r.arena n.children (c.settle s p h n r).arena
      (c.arrange Command.nodes (fun x y m => (Command.enter s p h x y m r).1) n.children) ∧
    (r.Undetached → (c.settle s p h n r).Undetached) := by
  cases c with
  | place char object before m =>
    obtain ⟨hsettles, -, hevents⟩ :=
      enter_settles hp hl hx (hnew object rfl) (hdecl object rfl) hfit
    refine ⟨hsettles.trans (hsettles.linked.settles_of_perm ?_), hevents⟩
    exact (Siblings.insertBefore_perm Node.id _ before n.children).symm
  | remove object =>
    have hstart := hl.settles_of_split object
    obtain ⟨hsettles, -, hevents⟩ := retireAll_settles _ _ r hstart.linked
    exact ⟨hstart.trans hsettles, hevents⟩
  | _ => exact ⟨arrange_settles hl rfl rfl, id⟩

theorem executeAll_settles (hp : p.Links s main) (t : Timeline) (cmds : List Command)
    (hl : Linked s main r.arena parent d h n.children)
    (hx : ∃ x, r.arena.get? h = some x ∧ x.timeline = t)
    (hnew : Command.Fresh n.childIds cmds)
    (hdecl : ∀ c ∈ cmds, ∀ id, c.placed? = some id → t.Declares id)
    (hfit : (Command.executeAll s p h cmds n r).2.arena.Fits) :
    Settles s main parent d h r.arena n.children (Command.executeAll s p h cmds n r).2.arena
      (Command.executeAll s p h cmds n r).1.children ∧
    (r.Undetached → (Command.executeAll s p h cmds n r).2.Undetached) := by
  induction cmds generalizing n r with
  | nil => exact ⟨hl.settles_of_perm (.refl _), id⟩
  | cons c cmds ih =>
    obtain ⟨x, hx, rfl⟩ := hx
    rw [Command.executeAll_cons] at hfit ⊢
    have hroom := hfit.mono (executeAll_grows hp.grows h cmds _ _)
    obtain ⟨hfirst, hevents⟩ := settle_settles hp hl hx hnew.1 (hdecl c List.mem_cons_self) hroom
    obtain ⟨l, howner⟩ := hfirst.owner hx
    have hnew' := hnew.2
    rw [← childIds_arrange (s := s) hp.head h c n r] at hnew'
    generalize hrun : Run.emit _ _ = run at hfit ⊢
    have harena : run.arena = (c.settle s p h n r).arena := hrun ▸ rfl
    rw [← harena] at hfirst howner
    obtain ⟨hrest, hevents'⟩ := ih hfirst.linked ⟨_, howner, rfl⟩ hnew'
      (fun c' hc' => hdecl c' (List.mem_cons_of_mem _ hc')) hfit
    refine ⟨hfirst.trans hrest, fun hu => hevents' (hrun ▸ ?_)⟩
    exact (hevents hu).emit (by simp)

theorem Linked.clip_of_split (hl : Linked s main r.arena parent d h n.children) {g : Handle} {c : Node}
    {pre post : List Node} (hcs : n.children = pre ++ c :: post) (hg : c.animator? = some g) :
    Linked s main r.arena (some h) (d + 1) g c.children :=
  (hl.settles_of_perm (hcs ▸ List.perm_middle)).linked.clip hg

/-- A nested animator plays on its node; the animator above and what the other children carry stay as
they are. -/
theorem Linked.turn (hp : p.Links s main) (hl : Linked s main r.arena parent d h n.children)
    {g : Handle} {c : Node} {pre post : List Node} (hcs : n.children = pre ++ c :: post)
    (hg : c.animator? = some g) (hfit : (p g c r).2.arena.Fits) :
    Settles s main parent d h r.arena n.children (p g c r).2.arena (pre ++ (p g c r).1 :: post) ∧
    (p g c r).2.arena.get? h = r.arena.get? h ∧
    ∀ b ∈ pre ++ post, ∀ k ∈ b.carried,
      k ∉ g :: c.handles ∧ (p g c r).2.arena.get? k = r.arena.get? k := by
  have hfront := hl.settles_of_perm (hcs ▸ List.perm_middle)
  obtain ⟨hclip, hconf, -⟩ := hp.plays (hfront.linked.clip hg) hfit
  obtain ⟨hplayed, howner⟩ := hfront.linked.played hg (hp.head g c r) hclip hconf
  have hback := hplayed.linked.settles_of_perm List.perm_middle.symm
  obtain ⟨-, hapart⟩ := hfront.linked.nodup_cons hg
  refine ⟨(hfront.trans hplayed).trans hback, howner, fun b hb k hk => ?_⟩
  have hin : k ∈ carriedAll (pre ++ post) := Node.mem_carriedAll.mpr ⟨b, hb, hk⟩
  have hout : k ∉ g :: c.handles := fun hkc => hapart k hkc (List.mem_cons_of_mem h hin)
  obtain ⟨y, hy⟩ := hfront.linked.driven.live_of_mem
    (List.mem_cons_of_mem h (List.mem_append_right c.carried hin))
  exact ⟨hout, (hconf.kept hy hout).1.trans hy.symm⟩

/-- Every nested animator finds its node, and plays there. -/
theorem playChildren_settles (hp : p.Links s main) (gs : List Handle)
    (hl : Linked s main r.arena parent d h n.children) (hin : ∀ g ∈ gs, g ∈ hosted n.children)
    (hfit : (playChildren s p gs n r).2.arena.Fits) :
    Settles s main parent d h r.arena n.children (playChildren s p gs n r).2.arena
      (playChildren s p gs n r).1.children ∧
    (playChildren s p gs n r).2.arena.get? h = r.arena.get? h ∧
    (r.Undetached → (playChildren s p gs n r).2.Undetached) := by
  induction gs generalizing n r with
  | nil => exact ⟨hl.settles_of_perm (.refl _), rfl, id⟩
  | cons g gs ih =>
    obtain ⟨pre, c, post, hcs, hg, heq⟩ := playChildren_cons s p gs (hin g List.mem_cons_self) r
    rw [heq] at hfit ⊢
    have hroom := hfit.mono (playChildren_grows hp.grows gs _ _)
    obtain ⟨hturn, howner, -⟩ := hl.turn hp hcs hg hroom
    obtain ⟨-, -, hevents⟩ := hp.plays (hl.clip_of_split hcs hg) hroom
    have hhosted : ∀ k ∈ gs, k ∈ hosted (pre ++ (p g c r).1 :: post) := by
      rw [Node.hosted_exchange (hp.head g c r), ← hcs]
      exact fun k hk => hin k (List.mem_cons_of_mem _ hk)
    obtain ⟨hrest, howner', hevents'⟩ := ih hturn.linked hhosted hfit
    exact ⟨hturn.trans hrest, howner'.trans howner, fun hu => hevents' (hevents hu)⟩

theorem Plan.declares_of_mem_ofFrame {t : Timeline} {frame : Frame} {number : Nat}
    (hframe : t.frames[number]? = some frame) {xs : List ObjectId} {looped : Bool} :
    ∀ c ∈ (Plan.ofFrame xs frame looped).commands, ∀ id, c.placed? = some id → t.Declares id :=
  fun _ hc _ hid => ⟨frame, List.mem_of_getElem? hframe, places_of_mem_ofFrame hc hid⟩

theorem playFrame_plays (hp : p.Links s main) (hl : Linked s main r.arena parent d h n.children)
    (hx : r.arena.get? h = some x) (hfit : (playFrame s p h x.timeline n r).2.arena.Fits) :
    Plays s main parent d h n r (playFrame s p h x.timeline n r).1
      (playFrame s p h x.timeline n r).2 := by
  generalize hnumber : (if x.cursor = x.timeline.frameCount then 0 else x.cursor) = number
  have hseekConf := (Confined.modify r.arena h fun x => { x with cursor := number }).append_right
    (carriedAll n.children)
  cases hframe : x.timeline.frames[number]? with
  | none =>
    rw [playFrame_of_none s p hx (hnumber ▸ hframe), hnumber]
    exact ⟨hl.seek number, hseekConf, id⟩
  | some frame =>
    rw [playFrame_eq s p hx (hnumber ▸ hframe), hnumber] at hfit ⊢
    dsimp only at hfit ⊢
    rw [Arena.Fits, Run.size_advance] at hfit
    generalize Plan.report _ h number _ = report at hfit ⊢
    obtain ⟨hcommands, hevents⟩ := executeAll_settles (r := (r.seek h number).emit (.frame report))
      hp x.timeline _ (hl.seek number) ⟨_, Run.get?_seek hx number, rfl⟩
      (Plan.fresh_ofFrame n.childIds frame _) (Plan.declares_of_mem_ofFrame hframe) hfit
    generalize Command.executeAll s p h _ n _ = out at hcommands hevents ⊢
    have hnextConf := (Confined.modify out.2.arena h fun x =>
      { x with cursor := x.cursor + 1 }).append_right (carriedAll out.1.children)
    exact ⟨hcommands.linked.advance, (hseekConf.trans hcommands.confined).trans hnextConf,
      fun hu => hevents (Run.Undetached.emit hu (by simp))⟩

end Commands

variable {s : Setting} {main : Timeline}

theorem playStep_links {p : Player} (hp : p.Links s main) : (playStep s p).Links s main where
  head := playStep_head s p
  grows := playStep_grows s p hp.grows
  plays {parent d h n r} hl hfit := by
    obtain ⟨x, hx, -, -⟩ := hl.driven.get?
    by_cases hcount : x.timeline.frameCount = 0
    · rw [playStep_of_empty s p hx hcount]
      exact ⟨hl, .refl _ _, id⟩
    · rw [playStep_eq s p hx hcount] at hfit ⊢
      dsimp only at hfit ⊢
      have hin := (hl.driven.perm_hosted hx).subset
      have hroom := hfit.mono (playFrame_grows hp.grows h x.timeline _ _)
      obtain ⟨hchildren, howner, hevents⟩ := playChildren_settles hp x.children hl (fun _ hg => hin hg) hroom
      obtain ⟨hlinked, hconf, hevents'⟩ :=
        playFrame_plays hp hchildren.linked (howner.trans hx) hfit
      exact ⟨hlinked, hchildren.confined.trans hconf, fun hu => hevents' (hevents hu)⟩

theorem playChain_links (s : Setting) (main : Timeline) (n : Nat) :
    (playChain s idle n).Links s main := by
  refine playChain_induction s ?_ (fun p hp => playStep_links hp) n
  exact ⟨fun _ _ _ => rfl, fun _ _ _ => Nat.le_refl _, fun hl _ => ⟨hl, .refl _ _, id⟩⟩

end SceneReel
