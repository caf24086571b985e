import SceneReel.Proofs.Playback.Cascade
import SceneReel.Proofs.Playback.LinkedPlay

/-!
What a play reports is a cascade, where the tree is linked with the arena: every animator listed finds its
node, has a frame to play, and has levels of nesting left.
-/
namespace SceneReel

open Node (hosted carriedAll)
open Arena (Forest Descends Lists)

variable {s : Setting} {main : Timeline} {p : Player} {m d e : Nat} {parent : Option Handle}
  {g h : Handle} {n : Node} {r r' r'' : Run} {x : Animation} {es es' : List Event}

/-- What a run has reported since an earlier point. -/
def Run.Emits (r r' : Run) (es : List Event) : Prop :=
  r'.events.toList = r.events.toList ++ es

theorem Run.Emits.refl (r : Run) : r.Emits r [] :=
  (List.append_nil _).symm

theorem Run.Emits.trans (h : r.Emits r' es) (h' : r'.Emits r'' es') : r.Emits r'' (es ++ es') := by
  unfold Run.Emits at *
  rw [h', h, List.append_assoc]

theorem Run.Emits.unique (h : r.Emits r' es) (h' : r.Emits r' es') : es = es' :=
  List.append_cancel_left (h.symm.trans h')

theorem Run.emits_emit (r : Run) (b : Event) : r.Emits (r.emit b) [b] := by
  simp [Run.Emits]

/-- No cursor is past the end of its timeline. -/
def Paced (a : Arena) (ks : List Handle) : Prop :=
  ∀ k ∈ ks, ∀ x, a.get? k = some x → x.cursor ≤ x.timeline.frameCount

/-- A player, for calls that nest less deep than so many, reports a cascade without commands of animators
live elsewhere. -/
structure Player.Cascades (s : Setting) (main : Timeline) (m : Nat) (p : Player) : Prop where
  links : p.Links s main
  plays : ∀ {e parent d h n r}, e < m → d + e = s.options.maxNestingDepth →
    Linked s main r.arena parent d h n.children → (p h n r).2.arena.Fits →
    Paced r.arena (h :: n.handles) →
    ∃ es, r.Emits (p h n r).2 es ∧ Cascade s.resolve r.arena h es ∧
      ∀ u y, r.arena.get? u = some y → u ∉ h :: n.handles → Silent u es

/-- What leads up to the outcome of a command is part of a batch, with no command of those that were
live before. -/
def Run.LeadsUp (s : Setting) (h : Handle) (kind : CommandKind) (object : ObjectId) (r r' : Run) :
    Prop :=
  ∃ es, r.Emits r' es ∧
    (∀ outcome rest, Batch s.resolve h rest →
      Batch s.resolve h (es ++ .command h kind object outcome :: rest)) ∧
    ∀ u y, r.arena.get? u = some y → Silent u es

theorem Run.LeadsUp.refl (s : Setting) (h : Handle) (kind : CommandKind) (object : ObjectId)
    (r : Run) : r.LeadsUp s h kind object r :=
  ⟨[], .refl r, fun _ _ rest => .quiet rfl rest, fun u _ _ => .nil u⟩

/-- A clip reports its start, and then its first frame with the batch after it. -/
theorem spawn_leadsUp (hp : p.Cascades s main m) (hl : Linked s main r.arena parent d h n.children)
    (hx : r.arena.get? h = some x) (hde : d + e = s.options.maxNestingDepth) (hem : e ≤ m)
    {char : CharId} {t : Timeline} {c : Node} (hr : s.resolve char = some (.timeline t))
    (hempty : c.children = []) (hnew : c.id ∉ n.childIds) (hdecl : x.timeline.Declares c.id)
    (hfit : (spawn s p h char t c r).2.arena.Fits) :
    r.LeadsUp s h .place c.id (spawn s p h char t c r).2 := by
  by_cases hd : s.options.maxNestingDepth < r.spawnDepth h
  · rw [spawn_of_lt hd]
    refine ⟨_, r.emits_emit _, fun outcome rest hrest => .quiet rfl (.quiet rfl hrest),
      fun u y _ => (Silent.nil u).cons (by simp)⟩
  · have hd := Nat.le_of_not_lt hd
    rw [spawn_of_le hd] at hfit ⊢
    rw [hl.spawnDepth] at hd hfit ⊢
    generalize hb : ({ c with kind := .clip char (some _) } : Node) = b at hfit ⊢
    generalize hr' : r.start t h (d + 1) c.id char = r' at hfit ⊢
    have harena : r'.arena = (r.arena.spawn t h (d + 1)).2 := hr' ▸ rfl
    have hbg : b.animator? = some (r.arena.spawn t h (d + 1)).1 := hb ▸ rfl
    have hbc : b.children = [] := hb ▸ hempty
    have hroom : (r.arena.spawn t h (d + 1)).2.Fits := harena ▸ hfit.mono (hp.links.grows _ b r')
    obtain ⟨hstart, -⟩ := start_settles hl hx hr hd c.id (hb ▸ hnew) (hb ▸ hdecl) hbg hbc hroom
    rw [hr'] at hstart
    have hchild := (hl.wellFormed.get?_spawn (t := t) (d := d + 1) hx hroom).2 _ |>.trans (if_pos rfl)
    have hlive := fun {u y} (hy : r.arena.get? u = some y) =>
      hl.wellFormed.stored.get?_spawn_of_live hroom hy
    rw [← harena] at hchild hlive
    have hfirst : r.Emits r' [.spawn h (r.arena.spawn t h (d + 1)).1 c.id char] :=
      hr' ▸ Run.emits_emit _ _
    generalize (r.arena.spawn t h (d + 1)).1 = child at hbg hfit hchild hlive hfirst ⊢
    have hpaced : Paced r'.arena (child :: b.handles) := by
      intro k hk y hy
      rw [Node.handles, hbc] at hk
      obtain rfl := List.mem_singleton.mp hk
      rw [hchild] at hy
      cases hy
      exact Nat.zero_le _
    obtain ⟨es, hes, hcascade, hsilent⟩ := hp.plays (e := e - 1) (by omega) (by omega)
      (hstart.linked.clip hbg) hfit hpaced
    -- who was live before is none of those that play now
    have hothers : ∀ u y, r.arena.get? u = some y → Silent u es := by
      intro u y hy
      obtain ⟨hne, hz⟩ := hlive hy
      refine hsilent u _ hz fun hin => ?_
      rw [Node.handles, hbc] at hin
      exact hne (List.mem_singleton.mp hin)
    refine ⟨_, hfirst.trans hes, fun outcome rest hrest => ?_,
      fun u y hy => (hothers u y hy).cons (by simp)⟩
    exact hcascade.batch hchild hr (hothers h x hx) outcome hrest

theorem enter_leadsUp (hp : p.Cascades s main m) (hl : Linked s main r.arena parent d h n.children)
    (hx : r.arena.get? h = some x) (hde : d + e = s.options.maxNestingDepth) (hem : e ≤ m)
    {char : CharId} {object : ObjectId} {matrix : Geometry.Matrix} (hnew : object ∉ n.childIds)
    (hdecl : x.timeline.Declares object)
    (hfit : (Command.enter s p h char object matrix r).2.arena.Fits) :
    r.LeadsUp s h .place object (Command.enter s p h char object matrix r).2 := by
  by_cases hr : ∃ t, s.resolve char = some (.timeline t)
  · obtain ⟨t, hr⟩ := hr
    rw [enter_of_timeline hr] at hfit ⊢
    exact spawn_leadsUp hp hl hx hde hem hr rfl hnew hdecl hfit
  · have hr : ∀ t, s.resolve char ≠ some (.timeline t) := fun t ht => hr ⟨t, ht⟩
    rw [(enter_of_still (p := p) (h := h) (r := r) hr object matrix).1]
    exact .refl s h .place object r

theorem retireAll_emits (gs : List Handle) (reason : RetireReason) (r : Run) :
    ∃ es, r.Emits (gs.foldl (Run.retire · reason) r) es ∧
      ∀ b ∈ es, ∃ g ∈ gs, ∃ slots, b = .retire g slots reason := by
  induction gs generalizing r with
  | nil => exact ⟨[], .refl r, fun b hb => absurd hb List.not_mem_nil⟩
  | cons g gs ih =>
    obtain ⟨es, hes, hall⟩ := ih (r.retire reason g)
    have hrest : ∀ b ∈ es, ∃ k ∈ g :: gs, ∃ slots, b = .retire k slots reason := fun b hb => by
      obtain ⟨k, hk, hretire⟩ := hall b hb
      exact ⟨k, List.mem_cons_of_mem g hk, hretire⟩
    rcases r.events_retire reason g with he | ⟨slots, he⟩
    · exact ⟨es, by rw [Run.Emits, ← he]; exact hes, hrest⟩
    · refine ⟨.retire g slots reason :: es, ?_,
        List.forall_mem_cons.mpr ⟨⟨g, List.mem_cons_self, slots, rfl⟩, hrest⟩⟩
      have hfirst : r.Emits (r.retire reason g) [.retire g slots reason] := by
        rw [Run.Emits, he, Array.toList_push]
      exact hfirst.trans hes

theorem settle_leadsUp (hp : p.Cascades s main m) (hl : Linked s main r.arena parent d h n.children)
    (hx : r.arena.get? h = some x) (hde : d + e = s.options.maxNestingDepth) (hem : e ≤ m)
    {c : Command} (hnew : ∀ id, c.placed? = some id → id ∉ n.childIds)
    (hdecl : ∀ id, c.placed? = some id → x.timeline.Declares id)
    (hfit : (c.settle s p h n r).arena.Fits) :
    r.LeadsUp s h c.kind c.object (c.settle s p h n r) := by
  cases c with
  | place char object before matrix =>
    exact enter_leadsUp hp hl hx hde hem (hnew object rfl) (hdecl object rfl) hfit
  | remove object =>
    obtain ⟨es, hes, hall⟩ := retireAll_emits
      ((n.children.filter (·.id = object)).filterMap Node.animator?) .removed r
    refine ⟨es, hes, fun outcome rest hrest => ?_, fun u y _ kind id outcome hin => ?_⟩
    · refine Batch.append_quiet (fun b hb => ?_) (.quiet rfl hrest)
      obtain ⟨g, -, slots, rfl⟩ := hall b hb
      rfl
    · obtain ⟨g, -, slots, he⟩ := hall _ hin
      cases he
  | _ => exact .refl s h _ _ r

theorem executeAll_emits (hp : p.Cascades s main m) (hde : d + e = s.options.maxNestingDepth)
    (hem : e ≤ m) (t : Timeline) (cmds : List Command)
    (hl : Linked s main r.arena parent d h n.children)
    (hx : ∃ x, r.arena.get? h = some x ∧ x.timeline = t) (hnew : Command.Fresh n.childIds cmds)
    (hdecl : ∀ c ∈ cmds, ∀ id, c.placed? = some id → t.Declares id)
    (hfit : (Command.executeAll s p h cmds n r).2.arena.Fits) :
    ∃ es, r.Emits (Command.executeAll s p h cmds n r).2 es ∧ Batch s.resolve h es ∧
      ∀ u y, r.arena.get? u = some y → u ∉ h :: n.handles → Silent u es := by
  induction cmds generalizing n r with
  | nil => exact ⟨[], .refl r, .nil, fun u _ _ _ => .nil u⟩
  | cons c cmds ih =>
    obtain ⟨x, hx, rfl⟩ := hx
    rw [Command.executeAll_cons] at hfit ⊢
    have hroom := hfit.mono (executeAll_grows hp.links.grows h cmds _ _)
    have hplaced := hdecl c List.mem_cons_self
    obtain ⟨es, hes, hbatch, hsilent⟩ := settle_leadsUp hp hl hx hde hem hnew.1 hplaced hroom
    obtain ⟨hfirst, -⟩ := settle_settles hp.links hl hx hnew.1 hplaced hroom
    obtain ⟨l, howner⟩ := hfirst.owner hx
    have hnew' := hnew.2
    rw [← childIds_arrange (s := s) hp.links.head h c n r] at hnew'
    generalize (c.execute s p h n r).1 = outcome at hfit ⊢
    generalize hrun : Run.emit _ (.command h c.kind c.object outcome) = run at hfit ⊢
    have harena : run.arena = (c.settle s p h n r).arena := hrun ▸ rfl
    have hreport : r.Emits run (es ++ [.command h c.kind c.object outcome]) :=
      hrun ▸ hes.trans (Run.emits_emit _ _)
    rw [← harena] at hfirst howner
    obtain ⟨es', hes', hbatch', hsilent'⟩ := ih hfirst.linked ⟨_, howner, rfl⟩ hnew'
      (fun c' hc' => hdecl c' (List.mem_cons_of_mem _ hc')) hfit
    refine ⟨_, hreport.trans hes', ?_, fun u y hy hu => ?_⟩
    · rw [List.append_assoc]
      exact hbatch outcome es' hbatch'
    · obtain ⟨hy', hu'⟩ := hfirst.confined.kept hy hu
      refine ((hsilent u y hy).append ((Silent.nil u).cons fun kind id outcome he => ?_)).append
        (hsilent' u y hy' hu')
      cases he
      exact hu List.mem_cons_self

theorem playChildren_emits (hp : p.Cascades s main m) (hde : d + e = s.options.maxNestingDepth)
    (hem : e ≤ m) (gs : List Handle) (hdistinct : gs.Nodup)
    (hl : Linked s main r.arena parent d h n.children) (hin : ∀ g ∈ gs, g ∈ hosted n.children)
    (hpaced : ∀ c ∈ n.children, ∀ g ∈ gs, c.animator? = some g → Paced r.arena (g :: c.handles))
    (hfit : (playChildren s p gs n r).2.arena.Fits) :
    ∃ block, r.Emits (playChildren s p gs n r).2 (gs.flatMap block) ∧
      (∀ g ∈ gs, Cascade s.resolve r.arena g (block g)) ∧
      ∀ u y, r.arena.get? u = some y → u ∉ h :: n.handles → Silent u (gs.flatMap block) := by
  induction gs generalizing n r with
  | nil =>
    exact ⟨fun _ => [], .refl r, fun g hg => absurd hg List.not_mem_nil, fun u _ _ _ => .nil u⟩
  | cons g gs ih =>
    obtain ⟨hgs, hdistinct⟩ := List.nodup_cons.mp hdistinct
    obtain ⟨pre, c, post, hcs, hg, heq⟩ := playChildren_cons s p gs (hin g List.mem_cons_self) r
    rw [heq] at hfit ⊢
    have hc : c ∈ n.children := hcs ▸ List.mem_append_right pre List.mem_cons_self
    have hroom := hfit.mono (playChildren_grows hp.links.grows gs _ _)
    have hclip := hl.clip_of_split hcs hg
    obtain ⟨-, -, -, hwithin, -, -, -, -, -, -⟩ := hclip.driven
    obtain ⟨es, hes, hcascade, hsilent⟩ := hp.plays (e := e - 1) (by omega) (by omega) hclip hroom
      (hpaced c hc g List.mem_cons_self hg)
    obtain ⟨hturn, -, hbeside⟩ := hl.turn hp.links hcs hg hroom
    have hhead := hp.links.head g c r
    generalize (p g c r).1 = c' at hfit hhead hturn ⊢
    generalize (p g c r).2 = r' at hfit hes hturn hbeside ⊢
    -- the children that are still to play have not changed
    have hsame : ∀ b ∈ pre ++ c' :: post, ∀ k ∈ gs, b.animator? = some k →
        b ∈ n.children ∧ ∀ i ∈ k :: b.handles, r'.arena.get? i = r.arena.get? i := by
      intro b hb k hk hbk
      have hne : k ≠ g := fun he => hgs (he ▸ hk)
      have hb := Node.mem_of_animator?_ne hb ((Node.animator?_of_head hhead).trans hg) hbk hne
      refine ⟨hcs ▸ List.perm_middle.symm.subset (List.mem_cons_of_mem c hb), fun i hi => ?_⟩
      refine (hbeside b hb i ?_).2
      rw [Node.carried_eq, hbk]
      exact hi
    have hhosted : ∀ k ∈ gs, k ∈ hosted (pre ++ c' :: post) := by
      rw [Node.hosted_exchange hhead, ← hcs]
      exact fun k hk => hin k (List.mem_cons_of_mem _ hk)
    obtain ⟨block, hblocks, hcascades, hsilent'⟩ := ih (n := { n with children := pre ++ c' :: post })
      hdistinct hturn.linked hhosted (fun b hb k hk hbk i hi y hy => by
        obtain ⟨hbn, hkept⟩ := hsame b hb k hk hbk
        exact hpaced b hbn k (List.mem_cons_of_mem g hk) hbk i hi y ((hkept i hi).symm.trans hy)) hfit
    have hrest : gs.flatMap (fun k => if k = g then es else block k) = gs.flatMap block := by
      refine List.flatMap_congr fun k hk => if_neg ?_
      rintro rfl
      exact hgs hk
    refine ⟨fun k => if k = g then es else block k, ?_, fun k hk => ?_, fun u y hy hu => ?_⟩
    · rw [List.flatMap_cons, if_pos rfl, hrest]
      exact hes.trans hblocks
    · rcases List.mem_cons.mp hk with rfl | hk
      · simp only [if_true]
        exact hcascade
      · have hne : k ≠ g := fun he => hgs (he ▸ hk)
        simp only [if_neg hne]
        obtain ⟨b, hb, hbk⟩ := Node.mem_hosted.mp (hhosted k hk)
        obtain ⟨-, hkept⟩ := hsame b hb k hk hbk
        obtain ⟨-, -, -, -, -, -, -, -, -, clips⟩ := hturn.linked.driven
        refine (hcascades k hk).congr fun i hd => (hkept i ?_).symm
        exact (clips b hb k hbk).descends_iff.mp hd
    · rw [List.flatMap_cons, if_pos rfl, hrest]
      have hout : u ∉ g :: c.handles := fun hin =>
        hu (List.mem_cons_of_mem h (Node.mem_carriedAll_of_clip hc hg hin))
      obtain ⟨hy', hu'⟩ := hturn.confined.kept hy hu
      exact (hsilent u y hy hout).append (hsilent' u y hy' hu')

theorem playFrame_emits (hp : p.Cascades s main m) (hde : d + e = s.options.maxNestingDepth)
    (hem : e ≤ m) (hl : Linked s main r.arena parent d h n.children)
    (hx : r.arena.get? h = some x) (hcursor : x.cursor ≤ x.timeline.frameCount)
    (hcount : x.timeline.frameCount ≠ 0) (hfit : (playFrame s p h x.timeline n r).2.arena.Fits) :
    ∃ f batch, r.Emits (playFrame s p h x.timeline n r).2 (.frame f :: batch) ∧ f.animator = h ∧
      Batch s.resolve h batch ∧
      ∀ u y, r.arena.get? u = some y → u ∉ h :: n.handles → Silent u (.frame f :: batch) := by
  generalize hnumber : (if x.cursor = x.timeline.frameCount then 0 else x.cursor) = number
  have hlt : number < x.timeline.frames.length := by
    have hlength : x.timeline.frames.length = x.timeline.frameCount := rfl
    split at hnumber <;> omega
  have hframe := List.getElem?_eq_getElem hlt
  generalize x.timeline.frames[number] = frame at hframe
  rw [playFrame_eq s p hx (hnumber ▸ hframe), hnumber] at hfit ⊢
  dsimp only at hfit ⊢
  rw [Arena.Fits, Run.size_advance] at hfit
  have hseekConf := (Confined.modify r.arena h fun x => { x with cursor := number }).append_right
    (carriedAll n.children)
  generalize hf : Plan.report _ h number _ = f at hfit ⊢
  obtain ⟨es, hes, hbatch, hsilent⟩ := executeAll_emits (r := (r.seek h number).emit (.frame f))
    hp hde hem x.timeline _ (hl.seek number) ⟨_, Run.get?_seek hx number, rfl⟩
    (Plan.fresh_ofFrame n.childIds frame _) (Plan.declares_of_mem_ofFrame hframe) hfit
  refine ⟨f, es, ?_, hf ▸ rfl, hbatch, fun u y hy hu => ?_⟩
  · have hfirst : r.Emits ((r.seek h number).emit (.frame f)) [.frame f] := Run.emits_emit _ _
    exact hfirst.trans hes
  · obtain ⟨hy', hu'⟩ := hseekConf.kept hy hu
    exact (hsilent u y hy' hu').cons (by simp)

theorem Driven.childless {a : Arena} {cs : List Node} (hd : Driven s main a parent d h cs)
    (hx : a.get? h = some x) (hempty : x.timeline.frameCount = 0) : x.children = [] := by
  have hperm := hd.perm_hosted hx
  obtain ⟨live, -, -, -, -, -, -, declared, -, -⟩ := hd
  rw [live] at hx
  cases hx
  refine List.eq_nil_iff_forall_not_mem.mpr fun g hg => ?_
  obtain ⟨c, hc, -⟩ := Node.mem_hosted.mp (hperm.subset hg)
  obtain ⟨f, hf, -⟩ := declared c hc
  rw [List.length_eq_zero_iff.mp hempty] at hf
  cases hf

theorem playStep_cascades (hp : p.Cascades s main m) : (playStep s p).Cascades s main (m + 1) where
  links := playStep_links hp.links
  plays {e parent d h n r} hem hde hl hfit hpaced := by
    obtain ⟨x, hx, -, -⟩ := hl.driven.get?
    by_cases hcount : x.timeline.frameCount = 0
    · rw [playStep_of_empty s p hx hcount]
      exact ⟨[], .refl r, .still hx hcount (hl.driven.childless hx hcount), fun u _ _ _ => .nil u⟩
    · rw [playStep_eq s p hx hcount] at hfit ⊢
      dsimp only at hfit ⊢
      have hin := (hl.driven.perm_hosted hx).subset
      have hroom := hfit.mono (playFrame_grows hp.links.grows h x.timeline _ _)
      obtain ⟨block, hblocks, hcascades, hsilent⟩ := playChildren_emits hp hde
        (Nat.le_of_lt_succ hem) x.children (hl.wellFormed.forest.nodup hx) hl (fun _ hg => hin hg)
        (fun c hc g _ hg k hk => hpaced k
          (List.mem_cons_of_mem h (Node.mem_carriedAll_of_clip hc hg hk))) hroom
      obtain ⟨hchildren, howner, -⟩ := playChildren_settles hp.links x.children hl
        (fun _ hg => hin hg) hroom
      obtain ⟨f, batch, hreport, hf, hbatch, hsilent'⟩ := playFrame_emits hp hde
        (Nat.le_of_lt_succ hem) hchildren.linked (howner.trans hx) (hpaced h List.mem_cons_self x hx)
        hcount hfit
      refine ⟨_, hblocks.trans hreport, .frame hx hcount block hcascades hf hbatch, fun u y hy hu => ?_⟩
      obtain ⟨hy', hu'⟩ := hchildren.confined.kept hy hu
      exact (hsilent u y hy hu).append (hsilent' u y hy' hu')

/-- A play of a chain that is long enough reports a cascade. -/
theorem playChain_cascades (s : Setting) (main : Timeline) (m : Nat) :
    (playChain s idle m).Cascades s main m := by
  induction m with
  | zero => exact ⟨playChain_links s main 0, fun hem => absurd hem (Nat.not_lt_zero _)⟩
  | succ m ih => exact playStep_cascades ih

end SceneReel
