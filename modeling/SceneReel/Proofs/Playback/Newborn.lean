import SceneReel.Proofs.Playback.Reached

/-!
The first play of a new clip. All that its node comes to host it has started itself, at greater depth, so
that it retires no animator that is as deep as itself or less, and itself stays live throughout.
-/
namespace SceneReel

variable {s : Setting} {before : List (Handle × Timeline)} {p : Player} {e : Nat} {h owner : Handle}
  {n : Node} {r : Run}

namespace Run

/-- An animator that has just started at a depth, on a node without children. -/
structure Newborn (r : Run) (h : Handle) (n : Node) (e : Nat) : Prop where
  live : ∃ x, r.arena.get? h = some x ∧ x.depth = e ∧ x.children = []
  bare : n.children = []

theorem newborn_start (hr : r.arena.Reached (r.cast s before)) (howner : owner ∈ r.issued s before)
    {char : CharId} {t : Timeline} (hchar : s.resolve char = some (.timeline t)) {object : ObjectId}
    (hspare : (r.start t owner (r.spawnDepth owner) object char).Sparing s before)
    (hn : n.children = []) :
    (r.start t owner (r.spawnDepth owner) object char).Newborn
      (r.arena.spawn t owner (r.spawnDepth owner)).1 n (r.spawnDepth owner) := by
  have hfresh := (accounted_of_reached hr).fresh hchar owner object hspare
  refine ⟨⟨_, hr.stored.get?_spawn_child hspare.1 fun he => ?_, rfl, rfl⟩, hn⟩
  exact hfresh (he ▸ howner)

/-- An animator at a depth that has only deeper ones on its node. -/
structure Brood (s : Setting) (before : List (Handle × Timeline)) (e : Nat) (h : Handle) (n : Node)
    (r : Run) : Prop where
  reached : r.arena.Reached (r.cast s before)
  live : ∃ x, r.arena.get? h = some x ∧ x.depth = e
  issued : Node.hosted n.children ⊆ r.issued s before
  deeper : ∀ g ∈ Node.hosted n.children, ∀ x, r.arena.get? g = some x → e < x.depth

theorem Brood.spawnDepth (hb : Brood s before e h n r) : r.spawnDepth h = e + 1 := by
  obtain ⟨x, hx, hdepth⟩ := hb.live
  simp [Run.spawnDepth, hx, hdepth]

theorem Brood.owner_issued (hb : Brood s before e h n r) (hspare : r.Sparing s before) :
    h ∈ r.issued s before := by
  obtain ⟨x, hx, -⟩ := hb.live
  exact (accounted_of_reached hb.reached).mem_issued hspare hx

end Run

/-- A newborn leaves all animators that are no deeper than itself, and so stays live. -/
def Player.Shelters (s : Setting) (before : List (Handle × Timeline)) (p : Player) : Prop :=
  ∀ {h n r e}, r.arena.Reached (r.cast s before) → (p h n r).2.Sparing s before →
    r.Newborn h n e → r.arena.Shelters e (p h n r).2.arena

/-- What a player of nested animators has to keep to in the first play of a clip. -/
structure Player.Rears (s : Setting) (before : List (Handle × Timeline)) (p : Player) : Prop where
  shelters : p.Shelters s before
  obeys : p.Obeys s
  head : p.KeepsHead

section Batch

theorem spawn_rears (hp : p.Rears s before) (hb : Run.Brood s before e h n r) {char : CharId}
    {t : Timeline} (hchar : s.resolve char = some (.timeline t)) {fresh : Node}
    (hbare : fresh.animator? = none) (hchildren : fresh.children = [])
    (hspare : (spawn s p h char t fresh r).2.Sparing s before) :
    r.arena.Shelters e (spawn s p h char t fresh r).2.arena ∧
    ∀ g, (spawn s p h char t fresh r).1.animator? = some g →
      g ∈ (spawn s p h char t fresh r).2.issued s before ∧
      ∀ x, (spawn s p h char t fresh r).2.arena.get? g = some x → e < x.depth := by
  by_cases hd : s.options.maxNestingDepth < r.spawnDepth h
  · rw [spawn_of_lt hd]
    exact ⟨.refl e _, fun g hg => by rw [hbare] at hg; cases hg⟩
  · rw [spawn_of_le (Nat.le_of_not_lt hd)] at hspare ⊢
    generalize hclip : ({ fresh with kind := _ } : Node) = clip at hspare ⊢
    have hstart : (r.start t h (r.spawnDepth h) fresh.id char).Sparing s before :=
      hspare.earlier (hp.obeys.later _ clip _)
    have hreached := (Run.keeps_reached s before).start hb.reached hchar h fresh.id
    have hborn := Run.newborn_start (n := clip) hb.reached
      (hb.owner_issued (hstart.earlier ((Run.keeps_later s r).start (.refl r) hchar h fresh.id)))
      hchar hstart (hclip ▸ hchildren)
    have hshelters := hp.shelters hreached hspare hborn
    have hlater := hp.obeys.later (r.arena.spawn t h (r.spawnDepth h)).1 clip
      (r.start t h (r.spawnDepth h) fresh.id char)
    refine ⟨?_, fun g hg => ?_⟩
    · refine (hb.reached.stored.shelters_spawn hstart.1 e).trans (hshelters.mono ?_)
      rw [hb.spawnDepth]
      omega
    · have hg' : g = (r.arena.spawn t h (r.spawnDepth h)).1 := by
        rw [Node.animator?_of_head (hp.head _ clip _), ← hclip] at hg
        exact (Option.some.inj hg).symm
      subst hg'
      have hissued : (r.arena.spawn t h (r.spawnDepth h)).1 ∈
          (r.start t h (r.spawnDepth h) fresh.id char).issued s before := by
        rw [Run.issued_start before hchar]
        exact List.mem_append_right _ List.mem_cons_self
      refine ⟨hlater.issued_subset hissued, fun x hx => ?_⟩
      have hsucceeds := hp.obeys.succeeds (r.arena.spawn t h (r.spawnDepth h)).1 clip
        (Run.accounted_of_reached hreached) hspare
      obtain ⟨y, hy, -, -, hdepth⟩ := hsucceeds.of_issued hx hissued
      obtain ⟨y', hy', hdepth', -⟩ := hborn.live
      rw [hy] at hy'
      cases hy'
      rw [hdepth, hdepth', hb.spawnDepth]
      exact Nat.lt_succ_self e

theorem enter_rears (hp : p.Rears s before) (hb : Run.Brood s before e h n r) {char : CharId}
    {object : ObjectId} {m : Geometry.Matrix}
    (hspare : (Command.enter s p h char object m r).2.Sparing s before) :
    r.arena.Shelters e (Command.enter s p h char object m r).2.arena ∧
    ∀ g, (Command.enter s p h char object m r).1.animator? = some g →
      g ∈ (Command.enter s p h char object m r).2.issued s before ∧
      ∀ x, (Command.enter s p h char object m r).2.arena.get? g = some x → e < x.depth := by
  unfold Command.enter at hspare ⊢
  generalize hfresh : ({ id := object, kind := _, transform := _ } : Node) = fresh at hspare ⊢
  have hkind : fresh.kind = .ofResolved char (s.resolve char) := hfresh ▸ rfl
  have hbare : fresh.animator? = none := by
    rw [Node.animator?, hkind]
    cases s.resolve char with
    | none => rfl
    | some v => cases v <;> rfl
  cases hchar : s.resolve char with
  | none => exact ⟨.refl e _, fun g hg => by rw [hbare] at hg; cases hg⟩
  | some v =>
    cases v with
    | timeline t =>
      rw [hchar] at hspare
      exact spawn_rears hp hb hchar hbare (hfresh ▸ rfl) hspare
    | _ => exact ⟨.refl e _, fun g hg => by rw [hbare] at hg; cases hg⟩

theorem retireAll_shelters (hr : r.arena.Reached (r.cast s before)) (hspare : r.Sparing s before)
    (reason : RetireReason) (gs : List Handle)
    (hdeep : ∀ g ∈ gs, ∀ x, r.arena.get? g = some x → e < x.depth) :
    r.arena.Shelters e (gs.foldl (Run.retire · reason) r).arena := by
  induction gs generalizing r with
  | nil => exact .refl e _
  | cons g gs ih =>
    have hnext := (Run.keeps_reached s before).retire hr reason g
    have hone := Arena.shelters_retire (hr.layered hspare).deepens (hdeep g List.mem_cons_self)
    have hroom : (r.retire reason g).Sparing s before := by
      rw [Run.Sparing, Run.cast_retire]
      refine hspare.mono ?_ (.refl _)
      rw [Run.arena_retire, Arena.size_retire]
    rw [← Run.arena_retire r reason] at hone
    refine hone.trans (ih hnext hroom fun k hk y hy => ?_)
    rw [Run.arena_retire] at hy
    obtain ⟨x, hx, -, he⟩ := Arena.get?_of_get?_retire hy
    rw [he]
    exact hdeep k (List.mem_cons_of_mem g hk) x hx

/-- A command leaves the animators that are no deeper than the one it is executed for. -/
theorem settle_rears (hp : p.Rears s before) (hb : Run.Brood s before e h n r) (c : Command)
    (hspare : (c.settle s p h n r).Sparing s before) :
    r.arena.Shelters e (c.settle s p h n r).arena := by
  have hnow : r.Sparing s before := hspare.earlier
    (settle_keeps (Run.keeps_later s r) (hp.obeys _ (Run.keeps_later s r)) h c n (.refl r))
  cases c with
  | place char object before m => exact (enter_rears hp hb hspare).1
  | remove object =>
    refine retireAll_shelters hb.reached hnow _ _ fun g hg => hb.deeper g ?_
    obtain ⟨c, hc, hg⟩ := List.mem_filterMap.mp hg
    exact Node.mem_hosted.mpr ⟨c, (List.mem_filter.mp hc).1, hg⟩
  | _ => exact .refl e _

theorem Run.Brood.settle (hp : p.Rears s before) (hb : Brood s before e h n r) (c : Command)
    (hspare : (c.settle s p h n r).Sparing s before) :
    Brood s before e h
      { n with
        children := c.arrange Command.nodes (fun x y m => (Command.enter s p h x y m r).1)
          n.children }
      (c.settle s p h n r) := by
  have hkeeps : ∀ {P : Run → Prop}, s.Keeps P → P r → P (c.settle s p h n r) := fun hP hr =>
    settle_keeps hP (hp.obeys _ hP) h c n hr
  have hlater := hkeeps (keeps_later s r) (.refl r)
  have hsucceeds := (hkeeps (keeps_succeeds s before r)
    (accounted_of_reached hb.reached).succeeds).2.2 hspare
  have hhosted : ∀ g ∈ Node.hosted (c.arrange Command.nodes
      (fun x y m => (Command.enter s p h x y m r).1) n.children),
      g ∈ (c.settle s p h n r).issued s before ∧
        ∀ x, (c.settle s p h n r).arena.get? g = some x → e < x.depth := by
    intro g hg
    obtain ⟨b, hb', hgb⟩ := Node.mem_hosted.mp hg
    rcases Command.mem_arrange hb' with ⟨b', hmem, hcore⟩ | ⟨char, object, before, m, rfl, rfl⟩
    · have hold : g ∈ Node.hosted n.children :=
        Node.mem_hosted.mpr ⟨b', hmem, (Node.animator?_of_core hcore).trans hgb⟩
      refine ⟨hlater.issued_subset (hb.issued hold), fun x hx => ?_⟩
      obtain ⟨y, hy, -, -, hdepth⟩ := hsucceeds.of_issued hx (hb.issued hold)
      rw [hdepth]
      exact hb.deeper g hold y hy
    · exact (enter_rears hp hb hspare).2 g hgb
  obtain ⟨x, hx, hdepth⟩ := hb.live
  obtain ⟨y, hy, hdepth'⟩ := settle_rears hp hb c hspare h x hx (Nat.le_of_eq hdepth)
  exact ⟨hkeeps (keeps_reached s before) hb.reached, ⟨y, hy, hdepth'.trans hdepth⟩,
    fun g hg => (hhosted g hg).1, fun g hg => (hhosted g hg).2⟩

theorem Run.Brood.emit (hb : Brood s before e h n r) {v : Event} (hv : v.isChange = false) :
    Brood s before e h n (r.emit v) := by
  refine ⟨(keeps_reached s before).emit hb.reached hv, hb.live, ?_, hb.deeper⟩
  rw [Run.issued, cast_emit hv]
  exact hb.issued

theorem executeAll_rears (hp : p.Rears s before) (hb : Run.Brood s before e h n r)
    (cs : List Command) (hspare : (Command.executeAll s p h cs n r).2.Sparing s before) :
    r.arena.Shelters e (Command.executeAll s p h cs n r).2.arena := by
  induction cs generalizing n r with
  | nil => exact .refl e _
  | cons c cs ih =>
    rw [Command.executeAll_cons] at hspare ⊢
    have hroom := hspare.earlier (executeAll_keeps (Run.keeps_later s _)
      (hp.obeys _ (Run.keeps_later s _)) h cs _ (.refl _))
    have hsettled : (c.settle s p h n r).Sparing s before := by
      rwa [Run.Sparing, Run.cast_emit rfl] at hroom
    exact (settle_rears hp hb c hsettled).trans (ih ((hb.settle hp c hsettled).emit rfl) hspare)

end Batch

section Tick

/-- A newborn whose frame is reached has nothing on its node yet. -/
theorem Run.Newborn.seek (hr : r.arena.Reached (r.cast s before)) (hborn : r.Newborn h n e)
    (number : Nat) : Brood s before e h n (r.seek h number) := by
  obtain ⟨x, hx, hdepth, -⟩ := hborn.live
  have hnone : ∀ g, g ∉ Node.hosted n.children := by
    rw [hborn.bare]
    exact fun g => List.not_mem_nil
  exact ⟨(keeps_reached s before).seek hr h number, ⟨_, Run.get?_seek hx number, hdepth⟩,
    fun g hg => absurd hg (hnone g), fun g hg => absurd hg (hnone g)⟩

theorem playFrame_rears (hp : p.Rears s before) (hr : r.arena.Reached (r.cast s before))
    (hborn : r.Newborn h n e) (t : Timeline) (hspare : (playFrame s p h t n r).2.Sparing s before) :
    r.arena.Shelters e (playFrame s p h t n r).2.arena := by
  obtain ⟨x, hx, -⟩ := hborn.live
  cases hframe : t.frames[if x.cursor = t.frameCount then 0 else x.cursor]? with
  | none =>
    rw [playFrame_of_none s p hx hframe]
    exact Arena.shelters_modify e r.arena h fun _ => rfl
  | some frame =>
    rw [playFrame_eq s p hx hframe] at hspare ⊢
    dsimp only at hspare ⊢
    generalize (if x.cursor = t.frameCount then 0 else x.cursor) = number at hspare ⊢
    generalize Plan.ofFrame n.childIds frame (x.cursor == t.frameCount) = plan at hspare ⊢
    have hbrood := (hborn.seek hr number).emit
      (v := .frame (plan.report h number (x.cursor == t.frameCount))) rfl
    have hroom := hspare.earlier ((Run.keeps_later s _).advance (.refl _) h)
    have hall := executeAll_rears hp hbrood _ hroom
    have hseek : r.arena.Shelters e (r.seek h number).arena :=
      Arena.shelters_modify e r.arena h fun _ => rfl
    exact (hseek.trans hall).trans (Arena.shelters_modify e _ h fun _ => rfl)

theorem playStep_rears (hp : p.Rears s before) : (playStep s p).Rears s before := by
  refine ⟨fun {h n r e} hr hspare hborn => ?_,
    fun _ hs => playStep_keeps hs (hp.obeys _ hs), playStep_head s p⟩
  obtain ⟨x, hx, -, hchildren⟩ := hborn.live
  by_cases hcount : x.timeline.frameCount = 0
  · rw [playStep_of_empty s p hx hcount]
    exact .refl e _
  · rw [playStep_eq s p hx hcount, hchildren] at hspare ⊢
    exact playFrame_rears hp hr hborn x.timeline hspare

theorem playChain_rears (s : Setting) (before : List (Handle × Timeline)) (n : Nat) :
    (playChain s idle n).Rears s before :=
  playChain_induction s
    ⟨fun _ _ _ => .refl _ _, fun _ _ _ _ _ hr => hr, fun _ _ _ => rfl⟩
    (fun _ hp => playStep_rears hp) n

end Tick

end SceneReel
