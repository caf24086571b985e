import SceneReel.Proofs.Playback.Checked
import SceneReel.Proofs.Playback.Newborn
import SceneReel.Proofs.Playback.Tends

/-!
How deep the calls of a play nest: down the tree, and then through new clips, of which each is deeper than
the one that places it. An attempt that may nest so deep succeeds, as long as there is room for the
animators that it starts.
-/
namespace SceneReel

variable {s : Setting} {before : List (Handle × Timeline)} {q : Attempt} {p : Player} {m e : Nat}
  {h : Handle} {n : Node} {r : Run}

/-- Attempts succeed on trees, and on new clips, for which they may nest deep enough. -/
structure Attempt.Suffices (s : Setting) (before : List (Handle × Timeline)) (q : Attempt)
    (p : Player) (m : Nat) : Prop where
  tree : ∀ {h n r}, r.arena.Reached (r.cast s before) → (lastRun (q h n r)).Sparing s before →
    n.height + s.options.maxNestingDepth < m → q h n r = .ok (p h n r)
  newborn : ∀ {h n r e}, r.arena.Reached (r.cast s before) →
    (lastRun (q h n r)).Sparing s before → r.Newborn h n e → e ≤ s.options.maxNestingDepth →
    s.options.maxNestingDepth < m + e → q h n r = .ok (p h n r)

section Batch

theorem starts_of_suffices (hq : q.Suffices s before p m) (hlater : q.Proceeds)
    (hr : r.arena.Reached (r.cast s before)) (howner : h ∈ r.issued s before)
    (hbudget : s.options.maxNestingDepth < m + r.spawnDepth h) {c : Command}
    (hspare : (lastRun (c.perform? s q h n r)).Sparing s before) : q.Starts s p h r c := by
  rintro char object pos m' t rfl hchar hd
  rw [perform?_place hr.stored hchar hd] at hspare
  dsimp only at hspare ⊢
  generalize hclip : ({ id := object, kind := _, transform := _ } : Node) = clip at hspare ⊢
  have hplay := hspare.earlier (later_lastRun_bind fun out =>
    (Run.keeps_later s out.2).emit (.refl out.2) rfl)
  have hstart := hplay.earlier (hlater _ _ clip (.refl _))
  exact hq.newborn ((Run.keeps_reached s before).start hr hchar h object) hplay
    (Run.newborn_start hr howner hchar hstart (hclip ▸ rfl)) hd hbudget

/-- A batch is performed with success where each of its clips is, something being kept that tells so. -/
theorem performAll?_of_starts {I : Node → Run → Prop} (hlater : q.Proceeds)
    (hreached : ∀ {n r}, I n r → r.arena.Reached (r.cast s before))
    (hstarts : ∀ {c n r}, I n r → (lastRun (c.perform? s q h n r)).Sparing s before →
      q.Starts s p h r c)
    (hnext : ∀ {c : Command} {n r outcome}, I n r → (c.settle s p h n r).Sparing s before →
      I { n with
          children := c.arrange Command.nodes (fun x y m => (Command.enter s p h x y m r).1)
            n.children }
        ((c.settle s p h n r).emit (.command h c.kind c.object outcome)))
    (cs : List Command) (hI : I n r)
    (hspare : (lastRun (Command.performAll? s q h cs n r)).Sparing s before) :
    Command.performAll? s q h cs n r = .ok (Command.executeAll s p h cs n r) := by
  induction cs generalizing n r with
  | nil => rfl
  | cons c cs ih =>
    have hone := hspare.earlier (later_lastRun_bind (x := c.perform? s q h n r) fun out =>
      performAll?_keeps (Run.keeps_later s out.2) (hlater out.2) h cs out.1 (.refl out.2))
    have hstart := hstarts hI hone
    rw [perform?_eq (hreached hI).stored hstart] at hone
    rw [performAll?_cons (hreached hI).stored cs hstart] at hspare ⊢
    rw [Command.executeAll_cons]
    rw [Command.execute_eq] at hone hspare ⊢
    refine ih (hnext hI ?_) hspare
    rwa [lastRun, Run.Sparing, Run.cast_emit rfl] at hone

end Batch

/-- The nested animators of a tree play with success, each on a child of its own that is less high. -/
theorem playChildren?_suffices (hq : q.Suffices s before p m) (hlater : q.Proceeds)
    (hp : p.Rears s before) (gs : List Handle) (hgs : gs.Nodup)
    (hlow : ∀ c ∈ n.children, ∀ g ∈ gs, c.animator? = some g →
      c.height + s.options.maxNestingDepth < m)
    (hr : r.arena.Reached (r.cast s before))
    (hspare : (lastRun (playChildren? s q gs n r)).Sparing s before) :
    playChildren? s q gs n r = .ok (playChildren s p gs n r) := by
  induction gs generalizing n r with
  | nil => rfl
  | cons g gs ih =>
    obtain ⟨hg, hgs⟩ := List.nodup_cons.mp hgs
    have hkeeps := Run.keeps_reached s before
    cases hc : n.animatedChild? g with
    | none =>
      obtain ⟨hplayer, hattempt⟩ := playChildren?_of_not_animated s hc p q gs r
      rw [hattempt] at hspare ⊢
      rw [hplayer]
      refine ih hgs (fun c hc k hk => hlow c hc k (List.mem_cons_of_mem g hk)) ?_ hspare
      split
      · exact hkeeps.retire hr .detached g
      · exact hr
    | some c =>
      obtain ⟨pre, post, hcs, hgc, hplay⟩ := playChildren?_of_animated s hc
      obtain ⟨hplayer, hattempt⟩ := hplay p q gs r
      rw [hattempt] at hspare ⊢
      have hone := hspare.earlier (later_lastRun_bind (x := q g c r) fun out =>
        playChildren?_keeps (Run.keeps_later s out.2) (hlater out.2) gs _ (.refl out.2))
      have hin : c ∈ n.children := by simp [hcs]
      have hok := hq.tree hr hone (hlow c hin g List.mem_cons_self hgc)
      rw [hok] at hspare ⊢
      rw [hplayer]
      refine ih hgs (fun b hb k hk hbk => ?_) (hp.obeys _ hkeeps g c hr) hspare
      have hhead := Node.animator?_of_head (hp.head g c r)
      have hne : k ≠ g := fun he => hg (he ▸ hk)
      have hb := Node.mem_of_animator?_ne hb (hhead.trans hgc) hbk hne
      refine hlow b ?_ k (List.mem_cons_of_mem g hk) hbk
      rw [hcs]
      rcases List.mem_append.mp hb with hb | hb
      · exact List.mem_append_left _ hb
      · exact List.mem_append_right _ (List.mem_cons_of_mem c hb)

theorem playFrame?_suffices (hq : q.Suffices s before p m) (hlater : q.Proceeds)
    (hp : p.Rears s before) (hr : r.arena.Reached (r.cast s before)) (howner : h ∈ r.issued s before)
    (hbudget : s.options.maxNestingDepth ≤ m) (t : Timeline)
    (hspare : (lastRun (playFrame? s q h t n r)).Sparing s before) :
    playFrame? s q h t n r = .ok (playFrame s p h t n r) := by
  have hkeeps := Run.keeps_reached s before
  have hobeys := hp.obeys
  refine playFrame?_eq fun number looped plan hpart => ?_
  refine performAll?_of_starts
    (I := fun _ r => r.arena.Reached (r.cast s before) ∧ h ∈ r.issued s before)
    hlater (fun hI => hI.1) (fun {c n r} hI hone => ?_) (fun {c n r outcome} hI _ => ?_) _
    ⟨hkeeps.emit (hkeeps.seek hr h number) rfl, ?_⟩ (hspare.earlier hpart)
  · refine starts_of_suffices hq hlater hI.1 hI.2 ?_ hone
    have hpos : 0 < r.spawnDepth h := by
      unfold Run.spawnDepth
      split <;> omega
    omega
  · have hsettle := settle_keeps (Run.keeps_later s r) (hobeys _ (Run.keeps_later s r)) h c n (.refl r)
    have hnext := (Run.keeps_later s r).emit hsettle (e := .command h c.kind c.object outcome) rfl
    exact ⟨hkeeps.emit (settle_keeps hkeeps (hobeys _ hkeeps) h c n hI.1) rfl,
      hnext.issued_subset hI.2⟩
  · have hframe := (Run.keeps_later s r).emit ((Run.keeps_later s r).seek (.refl r) h number)
      (e := .frame (plan.report h number looped)) rfl
    exact hframe.issued_subset howner

theorem playFrame?_of_newborn (hq : q.Suffices s before p m) (hlater : q.Proceeds)
    (hp : p.Rears s before) (hr : r.arena.Reached (r.cast s before)) (hborn : r.Newborn h n e)
    (hbudget : s.options.maxNestingDepth < m + (e + 1)) (t : Timeline)
    (hspare : (lastRun (playFrame? s q h t n r)).Sparing s before) :
    playFrame? s q h t n r = .ok (playFrame s p h t n r) := by
  refine playFrame?_eq fun number looped plan hpart => ?_
  refine performAll?_of_starts (I := Run.Brood s before e h) hlater (fun hI => hI.reached)
    (fun {c n r} hI hone => ?_) (fun {c n r outcome} hI hsettle => ?_) _
    ((hborn.seek hr number).emit rfl) (hspare.earlier hpart)
  · have hnow := hone.earlier (perform?_keeps (Run.keeps_later s r) (hlater r) h c n (.refl r))
    refine starts_of_suffices hq hlater hI.reached (hI.owner_issued hnow) ?_ hone
    rwa [hI.spawnDepth]
  · exact (hI.settle hp c hsettle).emit rfl

/-- One level more suffices for trees that are higher by one, and for clips that are less deep by one. -/
theorem playStep?_suffices (hq : q.Suffices s before p m) (hlater : q.Proceeds)
    (hp : p.Rears s before) : (playStep? s q).Suffices s before (playStep s p) (m + 1) where
  tree {h n r} hr hspare hbudget := by
    by_cases hstill : ∀ x, r.arena.get? h = some x → x.timeline.frameCount = 0
    · exact playStep?_of_still hstill
    push Not at hstill
    obtain ⟨x, hx, hcount⟩ := hstill
    rw [playStep?_eq_bind hx hcount] at hspare
    have hchildren := hspare.earlier (later_lastRun_bind fun out =>
      playFrame?_keeps (Run.keeps_later s out.2) (hlater out.2) h x.timeline out.1 (.refl out.2))
    have hnow := hchildren.earlier
      (playChildren?_keeps (Run.keeps_later s r) (hlater r) x.children n (.refl r))
    have hok := playChildren?_suffices hq hlater hp x.children ((hr.layered hnow).nodup hx)
      (fun c hc _ _ _ => by have := Node.height_lt hc; omega) hr hchildren
    have howner := (Run.accounted_of_reached hr).mem_issued hnow hx
    have hlater' := playChildren_keeps (Run.keeps_later s r) (hp.obeys _ (Run.keeps_later s r))
      x.children n (.refl r)
    have hreached := playChildren_keeps (Run.keeps_reached s before)
      (hp.obeys _ (Run.keeps_reached s before)) x.children n hr
    rw [hok] at hspare
    exact playStep?_of_live hx hcount hok (playFrame?_suffices hq hlater hp hreached
      (hlater'.issued_subset howner) (by omega) x.timeline hspare)
  newborn {h n r e} hr hspare hborn _ hbudget := by
    obtain ⟨x, hx, -, hnil⟩ := hborn.live
    by_cases hcount : x.timeline.frameCount = 0
    · refine playStep?_of_still fun y hy => ?_
      rw [hx] at hy
      cases hy
      exact hcount
    rw [playStep?_eq_bind hx hcount, hnil] at hspare
    refine playStep?_of_live hx hcount (by rw [hnil]; rfl) ?_
    rw [hnil]
    exact playFrame?_of_newborn hq hlater hp hr hborn (by omega) x.timeline hspare

theorem playChain?_suffices (s : Setting) (before : List (Handle × Timeline)) (m : Nat) :
    (playChain? s halt m).Suffices s before (playChain s idle m) m := by
  induction m with
  | zero => exact ⟨fun _ _ hbudget => absurd hbudget (Nat.not_lt_zero _), fun _ _ _ he hbudget => by omega⟩
  | succ m ih => exact playStep?_suffices ih (playChain?_proceeds s m) (playChain_rears s before m)

/-- A play that may nest so deep, and has room for the animators that it starts, stops nowhere. -/
theorem playChain?_eq (hr : r.arena.Reached (r.cast s before))
    (hspare : (playChain s idle m h n r).2.Sparing s before)
    (hbudget : n.height + s.options.maxNestingDepth < m) :
    playChain? s halt m h n r = .ok (playChain s idle m h n r) :=
  (playChain?_suffices s before m).tree hr (hspare.earlier (later_playChain s m h n hr.stored)) hbudget

/-- Every play comes to an end, and its calls nest no deeper than the tree, and then the levels that
clips have. -/
theorem play_terminates {a : Arena} {cast : List (Handle × Timeline)} (ha : a.Reached cast)
    (s : Setting) (h : Handle) (target : Node)
    (hroom : (lastRun (playChain? s halt (target.height + s.options.maxNestingDepth + 1) h target
      { arena := a })).Sparing s cast) :
    ∀ m, target.height + s.options.maxNestingDepth + 1 ≤ m →
      playChain? s halt m h target { arena := a } = .ok (play s h target { arena := a }) := by
  intro m hm
  have hcast : Run.cast s cast { arena := a } = cast := List.append_nil _
  have hreached : a.Reached (Run.cast s cast { arena := a }) := by rwa [hcast]
  exact playChain?_extends s hm
    ((playChain?_suffices s cast _).tree hreached hroom (Nat.lt_succ_self _))

def selfPlacing : Timeline :=
  ⟨[⟨[.known (.place ⟨1⟩ ⟨5⟩ none .identity)]⟩]⟩

def mirrors : Setting :=
  ⟨fun _ => some (.timeline selfPlacing), { maxNestingDepth := 2 }⟩

/-- A tree in which the outer clip is found in itself, beside the inner one. -/
def twisted : Node :=
  let clip : Handle → List Node → Node := fun h cs =>
    { id := ⟨5⟩, kind := .clip ⟨1⟩ (some h), children := cs }
  { Node.container ⟨0⟩ with children := [clip ⟨1, 0⟩ [clip ⟨1, 0⟩ [], clip ⟨2, 0⟩ []]] }

/-- After one play there are three animators, and the next comes to an end on such a tree. -/
theorem twisted_terminates : ∃ (a : Arena) (cast : List (Handle × Timeline)), a.Reached cast ∧
    a.size = 3 ∧ twisted.height = 2 ∧
    ∀ m, twisted.height + mirrors.options.maxNestingDepth + 1 ≤ m →
      playChain? mirrors halt m ⟨0, 0⟩ twisted { arena := a } =
        .ok (play mirrors ⟨0, 0⟩ twisted { arena := a }) := by
  let σ := ((Session.start selfPlacing mirrors.options).play mirrors.resolve (.container ⟨0⟩)).2
  have hσ : Session.Reached (fun _ _ => True) selfPlacing mirrors.options σ := .play _ _ .start trivial
  have hroom : (lastRun (playChain? mirrors halt 5 ⟨0, 0⟩ twisted
      { arena := σ.animator.arena })).Sparing mirrors σ.cast :=
    sparing_of_length (by decide +kernel) (by decide +kernel)
  exact ⟨σ.animator.arena, σ.cast, hσ.reached_arena, by decide +kernel, by decide +kernel,
    play_terminates hσ.reached_arena mirrors ⟨0, 0⟩ twisted hroom⟩

end SceneReel
