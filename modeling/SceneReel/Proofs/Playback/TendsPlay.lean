import SceneReel.Proofs.Playback.Tends

/-!
A play leaves its animator tending its node, where animators that have lost their node retire. The play
goes down the tree first and then through new clips, so the calls nest no deeper than the tree is high
and clips may nest.
-/
namespace SceneReel

open Node (hosted carriedAll)
open Arena (Forest Descends Lists Retains Upward)

variable {s : Setting} {before : List (Handle × Timeline)} {p : Player} {m : Nat} {V W : Set Handle}
  {g h : Handle} {x : Animation} {n : Node} {r : Run}

/-- An animator tends some nodes, and others were left alone. -/
structure Run.Tended (V : Set Handle) (h : Handle) (r r' : Run) (cs : List Node) : Prop where
  family : r'.arena.Family
  retains : Retains V r.arena r'.arena
  tends : Tends r'.arena h cs

/-- A player, for calls that nest less deep than so many, makes live animators tend their nodes. -/
structure Player.Tidies (s : Setting) (before : List (Handle × Timeline)) (m : Nat) (p : Player) :
    Prop where
  carries : p.Carries s before
  idles : ∀ {h n r}, r.arena.get? h = none → p h n r = (n, r)
  plays : ∀ {V h x n r}, r.Apart s before V h x n → (p h n r).2.Sparing s before →
    n.height + (s.options.maxNestingDepth - x.depth) < m →
    Run.Tended V h r (p h n r).2 (p h n r).1.children

theorem Run.Tended.modify {r' : Run} {cs : List Node} (ht : Run.Tended V h r r' cs) (k : Handle)
    {f : Animation → Animation} (hf : ∀ x, ∃ c, f x = { x with cursor := c }) :
    Run.Tended V h r { r' with arena := r'.arena.modify k f } cs := by
  have hsame : ∀ x, (f x).children = x.children ∧ (f x).parent = x.parent := by
    intro x
    obtain ⟨c, he⟩ := hf x
    rw [he]
    exact ⟨rfl, rfl⟩
  have hfamily := ht.family.modify k hf
  exact ⟨hfamily, ht.retains.trans (.modify V _ k hsame),
    ht.tends.modify k hsame hfamily.wellFormed.forest⟩

section Commands

theorem Run.Apart.spawnDepth (ha : r.Apart s before V h x n) : r.spawnDepth h = x.depth + 1 := by
  rw [Run.spawnDepth, ha.live]

/-- A clip that starts may play apart from all that were live before. -/
theorem Run.Apart.start (ha : r.Apart s before V h x n) (hcount : x.timeline.frameCount ≠ 0)
    {char : CharId} {t : Timeline} (hchar : s.resolve char = some (.timeline t)) (object : ObjectId)
    (hspare : (r.start t h (r.spawnDepth h) object char).Sparing s before) :
    (∀ U, h ∉ U → Retains U r.arena (r.start t h (r.spawnDepth h) object char).arena) ∧
    (r.start t h (r.spawnDepth h) object char).arena.get? h =
      some { x with children := x.children ++ [(r.arena.spawn t h (r.spawnDepth h)).1] } ∧
    ∀ b : Node, b.handles = [] → (r.start t h (r.spawnDepth h) object char).Apart s before
      {k | ∃ y, r.arena.get? k = some y} (r.arena.spawn t h (r.spawnDepth h)).1
      { timeline := t, parent := some h, depth := x.depth + 1 } b := by
  have hfresh := ha.accounted.fresh hchar h object hspare
  have hissued := Run.issued_start (r := r) before hchar h (r.spawnDepth h) object
  have haccounted := (Run.keeps_accounted s before).start ha.accounted hchar h object
  have hroom := hspare.earlier ((Run.keeps_later s r).start (.refl r) hchar h object)
  have hmem := fun {k y} => ha.accounted.mem_issued (k := k) (x := y) hroom
  have hfit : (r.arena.spawn t h (r.spawnDepth h)).2.Fits := hspare.1
  rw [Run.arena_start]
  obtain ⟨-, hget⟩ := ha.family.wellFormed.get?_spawn ha.live hfit
  have hothers := ha.family.upward_spawn hfit
  have hfamily : (r.arena.spawn t h (r.spawnDepth h)).2.Family := by
    rw [ha.spawnDepth] at hfit ⊢
    exact ha.family.spawn ha.live hcount hfit
  have hne : h ≠ (r.arena.spawn t h (r.spawnDepth h)).1 := fun he => hfresh (he ▸ ha.issued)
  refine ⟨fun U hU => ha.family.wellFormed.retains_spawn hfit hU, ?_, fun b hb => ?_⟩
  · rw [hget, if_neg hne, if_pos rfl]
  · refine ⟨haccounted, hfamily, ?_, hothers, fun ⟨y, hy⟩ => hfresh (hmem hy), fun q hq => ?_, ?_, ?_⟩
    · rw [Run.arena_start, hget, if_pos rfl, ha.spawnDepth]
    · cases hq
      exact ⟨x, ha.live⟩
    · rw [hb]
      refine ⟨List.nodup_singleton _, fun k hk => ?_⟩
      rw [hissued]
      exact List.mem_append_right _ hk
    · rw [hb]
      exact fun k hk => absurd hk List.not_mem_nil

/-- Children that were tended stay so while others play, the one that lists them apart. -/
theorem Run.Apart.clip_retains (ha : r.Apart s before V h x n) (hg : g ∈ x.children)
    {cs : List Node} (ht : Tends r.arena g cs) {a : Arena} (hf : Forest a.slots)
    (hr : Retains {k | (∃ y, r.arena.get? k = some y) ∧ k ≠ h} r.arena a) : Tends a g cs := by
  refine ht.retains hf hr fun k hd => ⟨?_, ?_⟩
  · rcases hd.cases_tail with rfl | ⟨b, -, y, hy, hc⟩
    · exact ht.live
    · obtain ⟨z, hz, -⟩ := ha.family.wellFormed.forest.back hy hc
      exact ⟨z, hz⟩
  · rintro rfl
    exact ha.child_not_mem hg
      (ha.upward_insert.of_descends ha.family.wellFormed.forest hd (Set.mem_insert _ _))

theorem spawn_tended (hp : p.Tidies s before m) (ha : r.Apart s before V h x n)
    (ht : Tends r.arena h n.children) (hcount : x.timeline.frameCount ≠ 0)
    (hfuel : s.options.maxNestingDepth - x.depth ≤ m) {char : CharId} {t : Timeline}
    (hchar : s.resolve char = some (.timeline t)) {c : Node} (hempty : c.children = [])
    (hspare : (spawn s p h char t c r).2.Sparing s before) :
    Run.Tended V h r (spawn s p h char t c r).2 ((spawn s p h char t c r).1 :: n.children) := by
  by_cases hd : s.options.maxNestingDepth < r.spawnDepth h
  · rw [spawn_of_lt hd]
    exact ⟨ha.family, .refl V _, ht.subset (List.subset_cons_self _ _)⟩
  · have hd := Nat.le_of_not_lt hd
    rw [spawn_of_le hd] at hspare ⊢
    obtain ⟨hstays, hlists, hapart⟩ :=
      ha.start hcount hchar c.id (hspare.earlier (hp.carries.obeys.later _ _ _))
    rw [ha.spawnDepth] at hd
    generalize hb : ({ c with kind := .clip char (some _) } : Node) = b at hspare ⊢
    generalize r.start t h (r.spawnDepth h) c.id char = r' at *
    generalize (r.arena.spawn t h (r.spawnDepth h)).1 = child at *
    have hbg : b.animator? = some child := hb ▸ rfl
    have hhandles : b.handles = [] := by
      rw [← hb, Node.handles, hempty]
      rfl
    have hheight : b.height = 0 := by
      rw [← hb]
      cases c
      cases hempty
      rfl
    have hroom : b.height + (s.options.maxNestingDepth - (x.depth + 1)) < m := by omega
    obtain ⟨hfamily, hretains, htends⟩ := hp.plays (hapart b hhandles) hspare hroom
    have hall : ∀ U : Set Handle, h ∉ U → U ⊆ {k | ∃ y, r.arena.get? k = some y} →
        Retains U r.arena (p child b r').2.arena := fun U hU hlive =>
      (hstays U hU).trans (hretains.mono hlive)
    refine ⟨hfamily, hall V ha.outside fun u hu => ?_, ?_⟩
    · obtain ⟨y, hy, -⟩ := ha.upward u hu
      exact ⟨y, hy⟩
    · obtain ⟨y, hy, -, hsub⟩ := hretains h ⟨x, ha.live⟩ _ hlists
      refine .of_clips hy fun g hg => ?_
      rcases List.mem_append.mp (hsub hg) with hg | hg
      · obtain ⟨b', hb', hgb, htb⟩ := ht.clip ha.live hg
        exact ⟨b', List.mem_cons_of_mem _ hb', hgb, ha.clip_retains hg htb
          hfamily.wellFormed.forest (hall _ (fun hin => hin.2 rfl) fun _ hin => hin.1)⟩
      · obtain rfl := List.mem_singleton.mp hg
        exact ⟨_, List.mem_cons_self,
          (Node.animator?_of_head (hp.carries.head g b r')).trans hbg, htends⟩

theorem enter_tended (hp : p.Tidies s before m) (ha : r.Apart s before V h x n)
    (ht : Tends r.arena h n.children) (hcount : x.timeline.frameCount ≠ 0)
    (hfuel : s.options.maxNestingDepth - x.depth ≤ m) (char : CharId) (object : ObjectId)
    (mat : Geometry.Matrix) (hspare : (Command.enter s p h char object mat r).2.Sparing s before) :
    Run.Tended V h r (Command.enter s p h char object mat r).2
      ((Command.enter s p h char object mat r).1 :: n.children) := by
  by_cases hchar : ∃ t, s.resolve char = some (.timeline t)
  · obtain ⟨t, hchar⟩ := hchar
    rw [enter_of_timeline hchar] at hspare ⊢
    exact spawn_tended hp ha ht hcount hfuel hchar rfl hspare
  · have hchar : ∀ t, s.resolve char ≠ some (.timeline t) := fun t ht => hchar ⟨t, ht⟩
    rw [(enter_of_still (p := p) (h := h) (r := r) hchar object mat).1]
    exact ⟨ha.family, .refl V _, ht.subset (List.subset_cons_self _ _)⟩

theorem retireAll_tended (reason : RetireReason) (removed kept : List Node)
    (hfamily : r.arena.Family) (hV : Upward r.arena V) (hh : h ∈ V)
    (ht : Tends r.arena h (removed ++ kept))
    (hout : ∀ c ∈ removed, ∀ g, c.animator? = some g → g ∉ V) :
    Run.Tended V h r ((removed.filterMap Node.animator?).foldl (Run.retire · reason) r) kept := by
  induction removed generalizing r with
  | nil => exact ⟨hfamily, .refl V _, ht⟩
  | cons c removed ih =>
    have hrest := fun b hb => hout b (List.mem_cons_of_mem c hb)
    rw [List.filterMap_cons]
    cases hg : c.animator? with
    | none =>
      refine ih hfamily hV (ht.mono fun b hb g hgb => ?_) hrest
      rcases List.mem_cons.mp hb with rfl | hb
      · rw [hg] at hgb
        cases hgb
      · exact ⟨b, hb, hgb, rfl⟩
    | some g =>
      have hgV := hout c List.mem_cons_self g hg
      have hretains := hV.retains_retire hfamily.wellFormed.forest hgV
      have hfamily' := hfamily.retire g
      obtain ⟨x, hx, -⟩ := hV h hh
      obtain ⟨y, hy, -⟩ := hretains h hh x hx
      have htends := ht.retire hfamily'.wellFormed.forest ⟨y, hy⟩
      have hgone := Arena.get?_retire_self r.arena g
      have hleft : Tends (r.arena.retire g).2 h (removed ++ kept) := by
        refine .of_clips hy fun k hk => ?_
        obtain ⟨b, hb, hkb, htb⟩ := htends.clip hy hk
        rcases List.mem_cons.mp hb with rfl | hb
        · -- the node that leaves hosts none that is left
          rw [hg] at hkb
          cases hkb
          obtain ⟨z, hz⟩ := htb.live
          rw [hgone] at hz
          cases hz
        · exact ⟨b, hb, hkb, htb⟩
      rw [← Run.arena_retire r reason g] at hretains hfamily' hleft
      obtain ⟨hfam, hret, htend⟩ := ih hfamily' (hV.retains hretains) hleft hrest
      exact ⟨hfam, hretains.trans hret, htend⟩

theorem settle_tended (hp : p.Tidies s before m) (ha : r.Apart s before V h x n)
    (ht : Tends r.arena h n.children) (hcount : x.timeline.frameCount ≠ 0)
    (hfuel : s.options.maxNestingDepth - x.depth ≤ m) (c : Command)
    (hspare : (c.settle s p h n r).Sparing s before) :
    Run.Tended V h r (c.settle s p h n r)
      (c.arrange Command.nodes (fun x y m => (Command.enter s p h x y m r).1) n.children) := by
  cases c with
  | place char object before mat =>
    obtain ⟨hfamily, hretains, htends⟩ := enter_tended hp ha ht hcount hfuel char object mat hspare
    refine ⟨hfamily, hretains, htends.of_core ?_⟩
    exact (Siblings.insertBefore_perm Node.id _ before n.children).symm.map Node.core
  | remove object =>
    have hsplit : Tends r.arena h
        (n.children.filter (·.id = object) ++ n.children.filter (·.id ≠ object)) := by
      refine ht.of_core (List.Perm.map Node.core ?_)
      simpa using (List.filter_append_perm (·.id = object) n.children).symm
    obtain ⟨hfamily, hretains, htends⟩ := retireAll_tended .removed _ _ ha.family ha.upward_insert
      (Set.mem_insert _ _) hsplit fun c hc g hg => ha.not_mem_insert
        (Node.mem_carriedAll.mpr ⟨c, (List.mem_filter.mp hc).1, Node.mem_carried.mpr (.inl hg)⟩)
    exact ⟨hfamily, hretains.mono (Set.subset_insert _ _), htends⟩
  | _ => exact ⟨ha.family, .refl V _, ht.of_core (Command.arrange_core_perm rfl rfl).symm⟩

theorem executeAll_tended (hp : p.Tidies s before m) (ha : r.Apart s before V h x n)
    (ht : Tends r.arena h n.children) (hcount : x.timeline.frameCount ≠ 0)
    (hfuel : s.options.maxNestingDepth - x.depth ≤ m) (cs : List Command)
    (hspare : (Command.executeAll s p h cs n r).2.Sparing s before) :
    Run.Tended V h r (Command.executeAll s p h cs n r).2
      (Command.executeAll s p h cs n r).1.children := by
  induction cs generalizing n r x with
  | nil => exact ⟨ha.family, .refl V _, ht⟩
  | cons c cs ih =>
    rw [Command.executeAll_cons] at hspare ⊢
    generalize hn : ({ n with children := c.arrange Command.nodes _ n.children } : Node) = n'
      at hspare ⊢
    generalize hr' : Run.emit _ _ = r' at hspare ⊢
    have hemit : ∀ {P : Run → Prop}, s.Keeps P → P r → P r' := fun hs hP => by
      rw [← hr']
      exact hs.emit (settle_keeps hs (hp.carries.obeys _ hs) h c n hP) rfl
    have hlater : Run.Later (c.settle s p h n r) r' := by
      rw [← hr']
      exact (Run.keeps_later s _).emit (.refl _) rfl
    have hroom := hspare.earlier (executeAll_keeps (Run.keeps_later s _)
      (hp.carries.obeys _ (Run.keeps_later s _)) h cs n' (.refl _))
    have hroom' := hroom.earlier hlater
    obtain ⟨hfamily, hretains, htends⟩ := settle_tended hp ha ht hcount hfuel c hroom'
    have hfirst := settle_carries hp.carries ha.accounted c hroom' ha.handles
    have hcarries : r.Carries s before n.handles r' n'.handles := by
      rw [← hn]
      exact hfirst.trans (.of_sublist hfirst.holds hlater (.refl _))
    have hsucceeds := (hemit (Run.keeps_succeeds s before r) ha.accounted.succeeds).2.2 hroom
    have harena : (c.settle s p h n r).arena = r'.arena := by
      rw [← hr']
      rfl
    rw [harena] at hfamily hretains htends
    have htends : Tends r'.arena h n'.children := by
      rw [← hn]
      exact htends
    obtain ⟨y, ha', htimeline, hdepth⟩ := ha.next (hemit (Run.keeps_accounted s before) ha.accounted)
      hroom hcarries hsucceeds hfamily hretains htends.live
    obtain ⟨hfam, hret, htend⟩ := ih ha' htends (htimeline ▸ hcount) (hdepth ▸ hfuel) hspare
    exact ⟨hfam, hretains.trans hret, htend⟩

/-- Of nested animators, all that are live in the end tend their nodes; other children of the node stay.
-/
structure Run.TendedAll (V : Set Handle) (gs : List Handle) (n : Node) (r : Run) (n' : Node)
    (r' : Run) : Prop where
  family : r'.arena.Family
  retains : Retains V r.arena r'.arena
  kept : ∀ c ∈ n.children, (∀ g ∈ gs, c.animator? ≠ some g) → c ∈ n'.children
  tends : ∀ g ∈ gs, ∀ y, r'.arena.get? g = some y →
    ∃ c ∈ n'.children, c.animator? = some g ∧ Tends r'.arena g c.children

/-- Nested animators that are still to play, under a common parent. -/
structure Run.Awaits (s : Setting) (before : List (Handle × Timeline)) (m : Nat) (V : Set Handle)
    (h : Handle) (gs : List Handle) (n : Node) (r : Run) : Prop where
  accounted : r.Accounted s before
  family : r.arena.Family
  upward : Upward r.arena V
  owner : h ∈ V
  holds : r.Holds s before n.handles
  nodup : gs.Nodup
  issued : gs ⊆ r.issued s before
  outside : ∀ g ∈ gs, g ∉ V
  parent : ∀ g ∈ gs, ∀ y, r.arena.get? g = some y → y.parent = some h
  apart : ∀ c ∈ n.children, ∀ g ∈ gs, c.animator? = some g → ∀ k ∈ c.carried, k ∉ V
  fuel : ∀ c ∈ n.children, ∀ g ∈ gs, c.animator? = some g → ∀ y, r.arena.get? g = some y →
    c.height + (s.options.maxNestingDepth - y.depth) < m

namespace Run.Awaits

variable {gs : List Handle} {c : Node} {pre post : List Node} {y : Animation}

theorem apart_head (hw : r.Awaits s before m V h (g :: gs) n) (hc : c ∈ n.children)
    (hg : c.animator? = some g) (hy : r.arena.get? g = some y) : r.Apart s before V g y c := by
  have hgin : g ∈ g :: gs := List.mem_cons_self
  refine ⟨hw.accounted, hw.family, hy, hw.upward, hw.outside g hgin, fun p hp => ?_, ?_,
    fun k hk => hw.apart c hc g hgin hg k (Node.mem_carried.mpr (.inr hk))⟩
  · rw [hw.parent g hgin y hy] at hp
    cases hp
    exact hw.owner
  · have hcarried : c.carried.Sublist n.handles := by
      rw [Node.handles, Node.carriedAll_eq_flatMap]
      exact List.sublist_flatten_of_mem (List.mem_map_of_mem hc)
    refine (hw.holds.sublist hcarried).perm ?_
    rw [Node.carried_eq, hg]
    exact (List.perm_append_singleton g c.handles).symm

/-- Once an animator has had its turn, the others go on awaiting theirs. -/
theorem next {n' : Node} {r' : Run} (hw : r.Awaits s before m V h (g :: gs) n)
    (hr : r'.Accounted s before) (hcarries : r.Carries s before n.handles r' n'.handles)
    (hsucceeds : Succeeds s before r r') (hfamily : r'.arena.Family)
    (hretains : Retains V r.arena r'.arena) (hupward : Upward r'.arena W)
    (hVW : V ⊆ W) (hnew : ∀ k ∈ W, k ∉ V → Descends r'.arena.slots g k ∧
      ∀ c ∈ n'.children, ∀ b ∈ gs, c.animator? = some b → k ∉ c.carried)
    (hnodes : ∀ c ∈ n'.children, ∀ b ∈ gs, c.animator? = some b → c ∈ n.children) :
    r'.Awaits s before m W h gs n' := by
  have hin : ∀ {b}, b ∈ gs → b ∈ g :: gs := fun hb => List.mem_cons_of_mem g hb
  have hfrom : ∀ {b}, b ∈ gs → ∀ y, r'.arena.get? b = some y →
      ∃ x, r.arena.get? b = some x ∧ y.parent = some h ∧ y.depth = x.depth := by
    intro b hb y hy
    obtain ⟨x, hx, -, hparent, hdepth⟩ := hsucceeds.of_issued hy (hw.issued (hin hb))
    exact ⟨x, hx, hparent.trans (hw.parent b (hin hb) x hx), hdepth⟩
  obtain ⟨hgs, hnodup⟩ := List.nodup_cons.mp hw.nodup
  refine ⟨hr, hfamily, hupward, hVW hw.owner, hcarries.holds, hnodup,
    fun b hb => hcarries.later.issued_subset (hw.issued (hin hb)), fun b hb hbW => ?_,
    fun b hb y hy => ?_, fun c hc b hb hbc k hk hkW => ?_, fun c hc b hb hbc y hy => ?_⟩
  · obtain ⟨hd, -⟩ := hnew b hbW (hw.outside b (hin hb))
    rcases hd.cases_tail with rfl | ⟨q, hdq, z, hz, hqb⟩
    · exact hgs hb
    · -- the others are children of the common parent, which does not descend from one of them
      obtain ⟨y, hy, hparent, -⟩ := hfamily.wellFormed.forest.back hz hqb
      obtain ⟨-, -, hparent', -⟩ := hfrom hb y hy
      rw [hparent] at hparent'
      cases hparent'
      exact hw.outside g List.mem_cons_self
        ((hw.upward.retains hretains).of_descends hfamily.wellFormed.forest hdq hw.owner)
  · obtain ⟨-, -, hparent, -⟩ := hfrom hb y hy
    exact hparent
  · have hkV := hw.apart c (hnodes c hc b hb hbc) b (hin hb) hbc k hk
    exact (hnew k hkW hkV).2 c hc b hb hbc hk
  · obtain ⟨x, hx, -, hdepth⟩ := hfrom hb y hy
    rw [hdepth]
    exact hw.fuel c (hnodes c hc b hb hbc) b (hin hb) hbc x hx

end Run.Awaits

/-- The first of the nested animators has had its turn, and tends a child if it is live; the others await
theirs. -/
structure Run.Turn (s : Setting) (before : List (Handle × Timeline)) (m : Nat) (V W : Set Handle)
    (h g : Handle) (gs : List Handle) (n : Node) (r : Run) (n' : Node) (r' : Run) : Prop where
  awaits : r'.Awaits s before m W h gs n'
  later : Run.Later r r'
  retains : Retains V r.arena r'.arena
  grows : V ⊆ W
  kept : ∀ c ∈ n.children, c.animator? ≠ some g → c ∈ n'.children
  tends : ∀ y, r'.arena.get? g = some y → ∃ c ∈ n'.children, c.animator? = some g ∧
    Tends r'.arena g c.children ∧ ∀ k, Descends r'.arena.slots g k → k ∈ W

namespace Run.Awaits

variable {gs : List Handle} {c : Node} {pre post : List Node} {y : Animation}

theorem lost (hw : r.Awaits s before m V h (g :: gs) n)
    (hspare : (r.retire .detached g).Sparing s before) :
    Run.Turn s before m V V h g gs n r n (r.retire .detached g) := by
  have hretired : ∀ {P : Run → Prop}, s.Keeps P → P r → P (r.retire .detached g) :=
    fun hs hP => hs.retire hP .detached g
  have harena := Run.arena_retire r .detached g
  generalize r.retire .detached g = r' at hspare harena hretired ⊢
  have hgone := Arena.get?_retire_self r.arena g
  have hfamily := hw.family.retire g
  have hretains := hw.upward.retains_retire hw.family.wellFormed.forest
    (hw.outside g List.mem_cons_self)
  rw [← harena] at hgone hfamily hretains
  refine ⟨hw.next (hretired (Run.keeps_accounted s before) hw.accounted)
    (.of_sublist hw.holds (hretired (Run.keeps_later s r) (.refl r)) (.refl _))
    ((hretired (Run.keeps_succeeds s before r) hw.accounted.succeeds).2.2 hspare) hfamily
    hretains (hw.upward.retains hretains) Set.Subset.rfl (fun k hk hout => absurd hk hout)
    (fun c hc _ _ _ => hc), hretired (Run.keeps_later s r) (.refl r), hretains, Set.Subset.rfl,
    fun c hc _ => hc, fun y hy => ?_⟩
  rw [hgone] at hy
  cases hy

/-- Nothing happens in the turn of a stale handle. -/
theorem stale (hw : r.Awaits s before m V h (g :: gs) n) (hspare : r.Sparing s before)
    (hnone : r.arena.get? g = none) : Run.Turn s before m V V h g gs n r n r := by
  refine ⟨hw.next hw.accounted (.of_sublist hw.holds (.refl r) (.refl _))
    (hw.accounted.succeeds.2.2 hspare) hw.family (.refl V _) hw.upward Set.Subset.rfl
    (fun k hk hout => absurd hk hout) (fun c hc _ _ _ => hc), .refl r, .refl V _, Set.Subset.rfl,
    fun c hc _ => hc, fun y hy => ?_⟩
  rw [hnone] at hy
  cases hy

theorem played (hp : p.Tidies s before m) (hw : r.Awaits s before m V h (g :: gs) n)
    (hcs : n.children = pre ++ c :: post) (hcg : c.animator? = some g)
    (hlive : r.arena.get? g = some y) (hspare : (p g c r).2.Sparing s before) :
    Run.Turn s before m V (V ∪ {k | Descends (p g c r).2.arena.slots g k}) h g gs n r
      { n with children := pre ++ (p g c r).1 :: post } (p g c r).2 := by
  obtain ⟨hgs, -⟩ := List.nodup_cons.mp hw.nodup
  have hgin : g ∈ g :: gs := List.mem_cons_self
  have hcn : c ∈ n.children := by simp [hcs]
  have hr' := hp.carries.obeys.accounted g c hw.accounted
  have hcarries := hp.carries.child hcs hw.accounted hspare hw.holds
  have hsucceeds := hp.carries.obeys.succeeds g c hw.accounted hspare
  have hbg : (p g c r).1.animator? = some g :=
    (Node.animator?_of_head (hp.carries.head g c r)).trans hcg
  obtain ⟨hfamily, hretains, htend⟩ := hp.plays (hw.apart_head hcn hcg hlive) hspare
    (hw.fuel c hcn g hgin hcg y hlive)
  generalize p g c r = out at hspare hr' hcarries hsucceeds hbg hfamily hretains htend ⊢
  obtain ⟨b, r'⟩ := out
  dsimp only at *
  have hothers : ∀ b' ∈ pre ++ b :: post, ∀ k ∈ gs, b'.animator? = some k → b' ∈ pre ++ post :=
    fun b' hb' k hk hbk => Node.mem_of_animator?_ne hb' hbg hbk fun he => hgs (he ▸ hk)
  obtain ⟨z, hz⟩ := htend.live
  obtain ⟨x, hx, -, hparent, -⟩ := hsucceeds.of_issued hz (hw.issued hgin)
  rw [hw.parent g hgin x hx] at hparent
  have hupward : Upward r'.arena (V ∪ {k | Descends r'.arena.slots g k}) :=
    (hw.upward.retains hretains).union_below hfamily.wellFormed.forest hz fun q hq => by
      rw [hparent] at hq
      cases hq
      exact hw.owner
  -- who descends from the animator is carried by its node, so by no other
  have hapart : ∀ k, Descends r'.arena.slots g k → ∀ b' ∈ pre ++ post, k ∉ b'.carried := by
    intro k hd b' hb' hk
    have hkb : k ∈ b.carried := by
      rw [Node.carried_eq, hbg]
      exact htend.mem_of_descends hd
    have hperm : (carriedAll (pre ++ b :: post)).Perm (b.carried ++ carriedAll (pre ++ post)) :=
      Node.carriedAll_perm_of_core (List.perm_middle.map Node.core)
    exact (List.nodup_append.mp (hperm.nodup_iff.mp hcarries.holds.nodup)).2.2 k hkb k
      (Node.mem_carriedAll.mpr ⟨b', hb', hk⟩) rfl
  refine ⟨hw.next hr' hcarries hsucceeds hfamily hretains hupward Set.subset_union_left
    (fun k hk hout => ?_) (fun b' hb' k hk hbk => ?_), hcarries.later, hretains,
    Set.subset_union_left, fun b' hb' hno => ?_, fun _ _ => ?_⟩
  · have hd := hk.resolve_left hout
    exact ⟨hd, fun b' hb' i hi hbi => hapart k hd b' (hothers b' hb' i hi hbi)⟩
  · rw [hcs]
    exact List.perm_middle.symm.subset (List.mem_cons_of_mem c (hothers b' hb' k hk hbk))
  · rw [hcs] at hb'
    have hb' := (List.mem_cons.mp (List.perm_middle.subset hb')).resolve_left
      fun he => hno (he ▸ hcg)
    exact List.perm_middle.symm.subset (List.mem_cons_of_mem b hb')
  · exact ⟨b, List.mem_append_right _ List.mem_cons_self, hbg, htend, fun _ hd => .inr hd⟩

theorem turn (hp : p.Tidies s before m) (hdetach : s.options.retireDetached = true)
    (hw : r.Awaits s before m V h (g :: gs) n)
    (hspare : (playChildren s p (g :: gs) n r).2.Sparing s before) :
    ∃ W n' r', Run.Turn s before m V W h g gs n r n' r' ∧
      playChildren s p (g :: gs) n r = playChildren s p gs n' r' := by
  have hlater := fun (n' : Node) (r' : Run) => playChildren_keeps (Run.keeps_later s r')
    (hp.carries.obeys _ (Run.keeps_later s r')) gs n' (.refl r')
  rw [playChildren] at hspare ⊢
  cases hu : n.updateChild? (·.animator? = some g) (p g · r) with
  | none =>
    rw [hu] at hspare
    simp only [hdetach, if_true] at hspare ⊢
    exact ⟨V, n, _, hw.lost (hspare.earlier (hlater n _)), rfl⟩
  | some out =>
    obtain ⟨n', r'⟩ := out
    rw [hu] at hspare
    dsimp only at hspare ⊢
    obtain ⟨pre, c, post, hcs, hc, rfl, rfl⟩ := Node.updateChild?_eq_some hu
    have hroom := hspare.earlier (hlater _ _)
    cases hlive : r.arena.get? g with
    | none =>
      have hsame : ({ n with children := pre ++ c :: post } : Node) = n := by
        rw [← hcs]
        cases n
        rfl
      rw [hp.idles hlive] at hroom ⊢
      exact ⟨V, n, r, hw.stale hroom hlive, by rw [hsame]⟩
    | some y => exact ⟨_, _, _, hw.played hp hcs (of_decide_eq_true hc) hlive hroom, rfl⟩

end Run.Awaits

theorem Run.Turn.tendedAll {gs : List Handle} {n' n'' : Node} {r' r'' : Run}
    (ht : Run.Turn s before m V W h g gs n r n' r') (hgs : g ∉ gs) (hg : g ∈ r.issued s before)
    (hsucceeds : Succeeds s before r' r'') (hrest : Run.TendedAll W gs n' r' n'' r'') :
    Run.TendedAll V (g :: gs) n r n'' r'' := by
  refine ⟨hrest.family, ht.retains.trans (hrest.retains.mono ht.grows), fun c hc hno => ?_,
    fun k hk y hy => ?_⟩
  · exact hrest.kept c (ht.kept c hc (hno g List.mem_cons_self))
      fun b hb => hno b (List.mem_cons_of_mem g hb)
  · rcases List.mem_cons.mp hk with rfl | hk
    · obtain ⟨x, hx, -⟩ := hsucceeds.of_issued hy (ht.later.issued_subset hg)
      obtain ⟨c, hc, hcg, htend, hbelow⟩ := ht.tends x hx
      refine ⟨c, hrest.kept c hc fun b hb hcb => ?_, hcg,
        htend.retains hrest.family.wellFormed.forest hrest.retains hbelow⟩
      rw [hcg] at hcb
      exact hgs (Option.some.inj hcb ▸ hb)
    · exact hrest.tends k hk y hy

/-- Nested animators play in turn; those that have lost their node retire. -/
theorem playChildren_tended (hp : p.Tidies s before m) (hdetach : s.options.retireDetached = true)
    (gs : List Handle) (hw : r.Awaits s before m V h gs n)
    (hspare : (playChildren s p gs n r).2.Sparing s before) :
    Run.TendedAll V gs n r (playChildren s p gs n r).1 (playChildren s p gs n r).2 := by
  induction gs generalizing n r V with
  | nil => exact ⟨hw.family, .refl V _, fun _ hc _ => hc, fun _ hg => absurd hg List.not_mem_nil⟩
  | cons g gs ih =>
    obtain ⟨W, n', r', hturn, heq⟩ := hw.turn hp hdetach hspare
    rw [heq] at hspare ⊢
    have hsucceeds := (playChildren_keeps (Run.keeps_succeeds s before r')
      (hp.carries.obeys _ (Run.keeps_succeeds s before r')) gs n'
      hturn.awaits.accounted.succeeds).2.2 hspare
    exact hturn.tendedAll (List.nodup_cons.mp hw.nodup).1 (hw.issued List.mem_cons_self) hsucceeds
      (ih hturn.awaits hspare)

theorem Run.Apart.awaits (ha : r.Apart s before V h x n) (hspare : r.Sparing s before)
    (hfuel : n.height + (s.options.maxNestingDepth - x.depth) < m + 1) :
    r.Awaits s before m (insert h V) h x.children n where
  accounted := ha.accounted
  family := ha.family
  upward := ha.upward_insert
  owner := Set.mem_insert _ _
  holds := ha.handles
  nodup := ha.family.wellFormed.forest.nodup ha.live
  issued g hg := by
    obtain ⟨y, hy, -⟩ := ha.family.wellFormed.forest.back ha.live hg
    exact ha.accounted.mem_issued hspare hy
  outside g hg := ha.child_not_mem hg
  parent g hg y hy := by
    obtain ⟨z, hz, hparent, -⟩ := ha.family.wellFormed.forest.back ha.live hg
    rw [show r.arena.get? g = some z from hz] at hy
    cases hy
    exact hparent
  apart c hc g hg hgc k hk := ha.not_mem_insert (Node.mem_carriedAll.mpr ⟨c, hc, hk⟩)
  fuel c hc g hg hgc y hy := by
    obtain ⟨z, hz, -, hdepth⟩ := ha.family.wellFormed.forest.back ha.live hg
    rw [show r.arena.get? g = some z from hz] at hy
    cases hy
    have hlow := Node.height_lt hc
    omega

/-- Where all children have had their turn, their parent tends its node. -/
theorem Run.TendedAll.tends_owner {n' : Node} {r' : Run} (ht : Run.TendedAll V x.children n r n' r')
    (hx : r.arena.get? h = some x) (hh : h ∈ V) : Tends r'.arena h n'.children := by
  obtain ⟨y, hy, -, hsub⟩ := ht.retains h hh x hx
  refine .of_clips hy fun g hg => ?_
  obtain ⟨z, hz, -⟩ := ht.family.wellFormed.forest.back hy hg
  exact ht.tends g (hsub hg) z hz

theorem playFrame_tended (hp : p.Tidies s before m) (ha : r.Apart s before V h x n)
    (ht : Tends r.arena h n.children) (hcount : x.timeline.frameCount ≠ 0)
    (hfuel : s.options.maxNestingDepth - x.depth ≤ m)
    (hspare : (playFrame s p h x.timeline n r).2.Sparing s before) :
    Run.Tended V h r (playFrame s p h x.timeline n r).2
      (playFrame s p h x.timeline n r).1.children := by
  have hlater := Run.keeps_later s
  generalize hnumber : (if x.cursor = x.timeline.frameCount then 0 else x.cursor) = number
  have hseek : Run.Tended V h r (r.seek h number) n.children :=
    Run.Tended.modify ⟨ha.family, .refl V _, ht⟩ h fun x => ⟨number, rfl⟩
  cases hframe : x.timeline.frames[number]? with
  | none =>
    rw [playFrame_of_none s p ha.live (hnumber ▸ hframe), hnumber]
    exact hseek
  | some frame =>
    rw [playFrame_eq s p ha.live (hnumber ▸ hframe), hnumber] at hspare ⊢
    dsimp only at hspare ⊢
    have hspare := hspare.earlier ((hlater _).advance (.refl _) h)
    generalize hr' : Run.emit _ _ = r' at hspare ⊢
    have hemit : ∀ {P : Run → Prop}, s.Keeps P → P r → P r' := fun hs hP =>
      hr' ▸ hs.emit (hs.seek hP h number) rfl
    have hstart : Run.Tended V h r r' n.children := by
      rw [← hr']
      exact ⟨hseek.family, hseek.retains, hseek.tends⟩
    have hroom := hspare.earlier (executeAll_keeps (hlater _) (hp.carries.obeys _ (hlater _)) h _ n
      (.refl _))
    obtain ⟨y, ha', htimeline, hdepth⟩ := ha.next (hemit (Run.keeps_accounted s before) ha.accounted)
      hroom (.of_sublist ha.handles (hemit (hlater r) (.refl r)) (.refl n.handles))
      ((hemit (Run.keeps_succeeds s before r) ha.accounted.succeeds).2.2 hroom) hstart.family
      hstart.retains hstart.tends.live
    have hcommands := executeAll_tended hp ha' hstart.tends (htimeline ▸ hcount) (hdepth ▸ hfuel) _
      hspare
    exact Run.Tended.modify ⟨hcommands.family, hstart.retains.trans hcommands.retains,
      hcommands.tends⟩ h fun x => ⟨x.cursor + 1, rfl⟩

end Commands

theorem playStep_tidies (hp : p.Tidies s before m) (hdetach : s.options.retireDetached = true) :
    (playStep s p).Tidies s before (m + 1) where
  carries := playStep_carries hp.carries
  idles hnone := playStep_of_dead s p hnone
  plays {V h x n r} ha hspare hfuel := by
    by_cases hcount : x.timeline.frameCount = 0
    · rw [playStep_of_empty s p ha.live hcount]
      refine ⟨ha.family, .refl V _, .of_clips ha.live fun g hg => ?_⟩
      rw [ha.family.childless ha.live hcount] at hg
      cases hg
    · rw [playStep_eq s p ha.live hcount] at hspare ⊢
      dsimp only at hspare ⊢
      have hlater := playFrame_keeps (Run.keeps_later s (playChildren s p x.children n r).2)
        (hp.carries.obeys _ (Run.keeps_later s _)) h x.timeline (playChildren s p x.children n r).1
        (.refl _)
      have hroom := hspare.earlier hlater
      have hnow := hroom.earlier (playChildren_keeps (Run.keeps_later s r)
        (hp.carries.obeys _ (Run.keeps_later s r)) x.children n (.refl r))
      have hchildren := playChildren_tended hp hdetach x.children (ha.awaits hnow hfuel) hroom
      have hcarries := playChildren_carries hp.carries ha.accounted x.children hroom ha.handles
      have hsucceeds := (playChildren_keeps (Run.keeps_succeeds s before r)
        (hp.carries.obeys _ (Run.keeps_succeeds s before r)) x.children n
        ha.accounted.succeeds).2.2 hroom
      have haccounted := playChildren_keeps (Run.keeps_accounted s before)
        (hp.carries.obeys _ (Run.keeps_accounted s before)) x.children n ha.accounted
      generalize playChildren s p x.children n r = out at *
      obtain ⟨n', r'⟩ := out
      dsimp only at *
      have htends := hchildren.tends_owner ha.live (Set.mem_insert _ _)
      have hretains := hchildren.retains.mono (Set.subset_insert h V)
      obtain ⟨y, ha', htimeline, hdepth⟩ := ha.next haccounted hroom hcarries hsucceeds
        hchildren.family hretains htends.live
      rw [← htimeline] at hspare hcount ⊢
      have hframe := playFrame_tended hp ha' htends hcount (by omega) hspare
      exact ⟨hframe.family, hretains.trans hframe.retains, hframe.tends⟩

theorem playChain_tidies (s : Setting) (before : List (Handle × Timeline))
    (hdetach : s.options.retireDetached = true) (m : Nat) :
    (playChain s idle m).Tidies s before m := by
  induction m with
  | zero =>
    exact ⟨playChain_carries s before 0, fun _ => rfl, fun _ _ hfuel => absurd hfuel (Nat.not_lt_zero _)⟩
  | succ m ih => exact playStep_tidies ih hdetach

end SceneReel
