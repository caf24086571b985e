import Mathlib.Data.List.Flatten
import SceneReel.Proofs.Playback.Cast
import SceneReel.Proofs.Playback.LinkedPlay

/-!
The handles that the nodes of a tree carry. Whatever the tree, if they were given out and no two nodes
carry one, then this is so after any play: a handle that enters the tree is a new one.
-/
namespace SceneReel

open Node (hosted carriedAll)

namespace Run

/-- Handles that were given out, each at one place. -/
structure Holds (s : Setting) (before : List (Handle × Timeline)) (r : Run) (ks : List Handle) :
    Prop where
  nodup : ks.Nodup
  issued : ks ⊆ r.issued s before

/-- Of the handles held before some are held still, and all others are new. -/
structure Carries (s : Setting) (before : List (Handle × Timeline)) (r : Run) (ks : List Handle)
    (r' : Run) (ks' : List Handle) : Prop where
  later : Later r r'
  holds : r'.Holds s before ks'
  origin : ∀ k ∈ ks', k ∈ ks ∨ k ∉ r.issued s before

variable {s : Setting} {before : List (Handle × Timeline)} {r r' r'' : Run}
  {ks ks' ks'' ls ls' : List Handle}

theorem Holds.sublist (h : r.Holds s before ks) (hs : ks'.Sublist ks) : r.Holds s before ks' :=
  ⟨h.nodup.sublist hs, fun _ hk => h.issued (hs.subset hk)⟩

theorem Holds.perm (h : r.Holds s before ks) (hp : ks.Perm ks') : r.Holds s before ks' :=
  ⟨hp.nodup_iff.mp h.nodup, fun _ hk => h.issued (hp.symm.subset hk)⟩

theorem Holds.later (h : r.Holds s before ks) (hr : Later r r') : r'.Holds s before ks :=
  ⟨h.nodup, fun _ hk => hr.issued_subset (h.issued hk)⟩

namespace Carries

theorem of_sublist (h : r.Holds s before ks) (hr : Later r r') (hs : ks'.Sublist ks) :
    Carries s before r ks r' ks' :=
  ⟨hr, (h.sublist hs).later hr, fun _ hk => .inl (hs.subset hk)⟩

theorem trans (h : Carries s before r ks r' ks') (h' : Carries s before r' ks' r'' ks'') :
    Carries s before r ks r'' ks'' where
  later := ⟨h.later.slots.trans h'.later.slots, h.later.events.trans h'.later.events⟩
  holds := h'.holds
  origin k hk := by
    rcases h'.origin k hk with hk | hk
    · exact h.origin k hk
    · exact .inr fun hin => hk (h.later.issued_subset hin)

theorem perm (h : Carries s before r ks r' ks') (hp : ks.Perm ls) (hp' : ks'.Perm ls') :
    Carries s before r ls r' ls' where
  later := h.later
  holds := h.holds.perm hp'
  origin k hk := (h.origin k (hp'.symm.subset hk)).imp_left (hp.subset ·)

/-- What others hold stays apart from what is held here. -/
theorem append (h : Carries s before r ks r' ks') (hk : r.Holds s before (ks ++ ls)) :
    Carries s before r (ks ++ ls) r' (ks' ++ ls) := by
  have hls := hk.sublist (List.sublist_append_right ks ls)
  refine ⟨h.later, ⟨?_, ?_⟩, fun k hin => ?_⟩
  · refine List.nodup_append.mpr ⟨h.holds.nodup, hls.nodup, fun k hk' l hl he => ?_⟩
    subst he
    rcases h.origin k hk' with hin | hnew
    · exact (List.nodup_append.mp hk.nodup).2.2 k hin k hl rfl
    · exact hnew (hls.issued hl)
  · exact List.append_subset.mpr ⟨h.holds.issued, (hls.later h.later).issued⟩
  · rcases List.mem_append.mp hin with hin | hin
    · exact (h.origin k hin).imp_left (List.mem_append_left ls)
    · exact .inl (List.mem_append_right ks hin)

end Carries

end Run

/-- A player that lets no handle get onto two nodes. -/
structure Player.Carries (s : Setting) (before : List (Handle × Timeline)) (p : Player) : Prop where
  obeys : p.Obeys s
  head : p.KeepsHead
  plays : ∀ {h n r}, r.Accounted s before → (p h n r).2.Sparing s before →
    r.Holds s before n.handles → r.Carries s before n.handles (p h n r).2 (p h n r).1.handles

section Commands

variable {s : Setting} {before : List (Handle × Timeline)} {p : Player} {h owner : Handle}
  {n : Node} {r : Run}

/-- A node and those beside it: the node plays, and no handle gets onto two nodes. -/
theorem Player.Carries.beside (hp : p.Carries s before) {g : Handle} {c : Node}
    {ks : List Handle} (hr : r.Accounted s before) (hspare : (p g c r).2.Sparing s before)
    (hk : r.Holds s before (c.carried ++ ks)) :
    r.Carries s before (c.carried ++ ks) (p g c r).2 ((p g c r).1.carried ++ ks) := by
  have hfront : ∀ b : Node,
      (b.handles ++ (b.animator?.toList ++ ks)).Perm (b.carried ++ ks) := fun b => by
    rw [Node.carried_eq, ← List.append_assoc]
    exact List.perm_append_comm.append_right ks
  have hk' := hk.perm (hfront c).symm
  have hplays := (hp.plays hr hspare (hk'.sublist (List.sublist_append_left _ _))).append hk'
  have hhead := Node.animator?_of_head (hp.head g c r)
  exact hplays.perm (hfront c) (hhead ▸ hfront (p g c r).1)

theorem Player.Carries.child (hp : p.Carries s before) {g : Handle} {c : Node} {pre post : List Node}
    (hcs : n.children = pre ++ c :: post) (hr : r.Accounted s before)
    (hspare : (p g c r).2.Sparing s before) (hk : r.Holds s before n.handles) :
    r.Carries s before n.handles (p g c r).2 (carriedAll (pre ++ (p g c r).1 :: post)) := by
  have hfront : ∀ b : Node, (b.carried ++ carriedAll (pre ++ post)).Perm
      (carriedAll (pre ++ b :: post)) := fun b =>
    Node.carriedAll_perm_of_core (List.perm_middle.symm.map Node.core)
  rw [Node.handles, hcs] at hk ⊢
  exact (hp.beside hr hspare (hk.perm (hfront c).symm)).perm (hfront c) (hfront _)

theorem carries_bare {r' : Run} {c : Node} (hr : Run.Later r r') (hg : c.animator? = none)
    (hempty : c.children = []) : r.Carries s before [] r' c.carried := by
  rw [Node.carried_eq, hg, Node.handles, hempty]
  exact .of_sublist ⟨List.nodup_nil, List.nil_subset _⟩ hr (List.Sublist.refl _)

theorem spawn_carries (hp : p.Carries s before) (hr : r.Accounted s before) {char : CharId}
    {t : Timeline} (hchar : s.resolve char = some (.timeline t)) {c : Node}
    (hg : c.animator? = none) (hempty : c.children = [])
    (hspare : (spawn s p owner char t c r).2.Sparing s before) :
    r.Carries s before [] (spawn s p owner char t c r).2 (spawn s p owner char t c r).1.carried := by
  by_cases hd : s.options.maxNestingDepth < r.spawnDepth owner
  · rw [spawn_of_lt hd]
    exact carries_bare ((Run.keeps_later s r).emit (.refl r) rfl) hg hempty
  · rw [spawn_of_le (Nat.le_of_not_lt hd)] at hspare ⊢
    have hfresh := hr.fresh hchar owner c.id (hspare.earlier (hp.obeys.later _ _ _))
    have hissued := Run.issued_start (r := r) before hchar owner (r.spawnDepth owner) c.id
    have hstart := (Run.keeps_accounted s before).start hr hchar owner c.id
    have hlater := (Run.keeps_later s r).start (.refl r) hchar owner c.id
    generalize hb : ({ c with kind := .clip char (some _) } : Node) = b at hspare ⊢
    generalize (r.arena.spawn t owner (r.spawnDepth owner)).1 = child at hspare hfresh hissued hb ⊢
    generalize r.start t owner (r.spawnDepth owner) c.id char = r'
      at hspare hissued hstart hlater ⊢
    have hnew : r.Carries s before [] r' [child] := by
      refine ⟨hlater, ⟨List.nodup_singleton child, ?_⟩, fun k hk => .inr ?_⟩
      · rw [hissued]
        exact List.subset_append_right _ _
      · exact List.mem_singleton.mp hk ▸ hfresh
    have hcarried : [child] = b.carried ++ [] := by
      rw [← hb, Node.carried_eq, Node.handles, hempty]
      rfl
    rw [hcarried] at hnew
    have hplays := hp.beside hstart hspare hnew.holds
    exact hnew.trans (hplays.perm (.refl _) (by rw [List.append_nil]))

/-- A new node carries new handles only. -/
theorem enter_carries (hp : p.Carries s before) (hr : r.Accounted s before) (owner : Handle)
    (char : CharId) (object : ObjectId) (m : Geometry.Matrix)
    (hspare : (Command.enter s p owner char object m r).2.Sparing s before) :
    r.Carries s before [] (Command.enter s p owner char object m r).2
      (Command.enter s p owner char object m r).1.carried := by
  by_cases hchar : ∃ t, s.resolve char = some (.timeline t)
  · obtain ⟨t, hchar⟩ := hchar
    rw [enter_of_timeline hchar] at hspare ⊢
    exact spawn_carries hp hr hchar rfl rfl hspare
  · have hchar : ∀ t, s.resolve char ≠ some (.timeline t) := fun t ht => hchar ⟨t, ht⟩
    obtain ⟨he, hclip⟩ := enter_of_still (p := p) (h := owner) (r := r) hchar object m
    rw [he]
    refine carries_bare (.refl r) ?_ rfl
    unfold Node.animator?
    split
    · exact absurd ‹_› (hclip _ _)
    · rfl

theorem settle_carries (hp : p.Carries s before) (hr : r.Accounted s before) (c : Command)
    (hspare : (c.settle s p owner n r).Sparing s before) (hk : r.Holds s before n.handles) :
    r.Carries s before n.handles (c.settle s p owner n r) (carriedAll
      (c.arrange Command.nodes (fun x y m => (Command.enter s p owner x y m r).1) n.children)) := by
  cases c with
  | place char object sibling m =>
    have hk : r.Holds s before ([] ++ n.handles) := hk
    refine ((enter_carries hp hr owner char object m hspare).append hk).perm (.refl _) ?_
    have hperm := Siblings.insertBefore_perm Node.id (Command.enter s p owner char object m r).1
      sibling n.children
    have hcarried := Node.carriedAll_perm_of_core (hperm.map Node.core)
    exact hcarried.symm
  | remove object =>
    refine .of_sublist hk (settle_keeps (Run.keeps_later s r) (hp.obeys _ (Run.keeps_later s r))
      owner (.remove object) n (.refl r)) ?_
    rw [Node.handles, Node.carriedAll_eq_flatMap, Node.carriedAll_eq_flatMap]
    exact List.filter_sublist.flatMap _
  | _ =>
    refine (Run.Carries.of_sublist hk (.refl r) (.refl _)).perm (.refl _) ?_
    exact (Node.carriedAll_perm_of_core (Command.arrange_core_perm rfl rfl)).symm

theorem executeAll_carries (hp : p.Carries s before) (hr : r.Accounted s before)
    (cs : List Command) (hspare : (Command.executeAll s p owner cs n r).2.Sparing s before)
    (hk : r.Holds s before n.handles) :
    r.Carries s before n.handles (Command.executeAll s p owner cs n r).2
      (Command.executeAll s p owner cs n r).1.handles := by
  induction cs generalizing n r with
  | nil => exact .of_sublist hk (.refl r) (.refl _)
  | cons c cs ih =>
    rw [Command.executeAll_cons] at hspare ⊢
    generalize hn : ({ n with children := c.arrange Command.nodes _ n.children } : Node) = n'
      at hspare ⊢
    generalize he : Event.command owner c.kind c.object _ = e at hspare ⊢
    have hemit : e.isChange = false := he ▸ rfl
    have hlater := (Run.keeps_later s (c.settle s p owner n r)).emit (.refl _) hemit
    have hroom := hspare.earlier (executeAll_keeps (Run.keeps_later s _)
      (hp.obeys _ (Run.keeps_later s _)) owner cs n' (.refl _))
    have hfirst := settle_carries hp hr c (hroom.earlier hlater) hk
    have haccounted := settle_keeps (Run.keeps_accounted s before)
      (hp.obeys _ (Run.keeps_accounted s before)) owner c n hr
    subst hn
    have hemitted := Run.Carries.of_sublist hfirst.holds hlater (.refl _)
    exact (hfirst.trans hemitted).trans
      (ih ((Run.keeps_accounted s before).emit haccounted hemit) hspare hemitted.holds)

theorem playChildren_carries (hp : p.Carries s before) (hr : r.Accounted s before)
    (gs : List Handle) (hspare : (playChildren s p gs n r).2.Sparing s before)
    (hk : r.Holds s before n.handles) :
    r.Carries s before n.handles (playChildren s p gs n r).2 (playChildren s p gs n r).1.handles := by
  induction gs generalizing n r with
  | nil => exact .of_sublist hk (.refl r) (.refl _)
  | cons g gs ih =>
    rw [playChildren] at hspare ⊢
    cases hu : n.updateChild? (·.animator? = some g) (p g · r) with
    | none =>
      rw [hu] at hspare
      dsimp only at hspare ⊢
      generalize hr' : (if s.options.retireDetached then r.retire .detached g else r) = r'
        at hspare ⊢
      have hdetach : ∀ {P : Run → Prop}, s.Keeps P → P r → P r' := fun hs hP => by
        subst hr'
        split
        · exact hs.retire hP .detached g
        · exact hP
      have hfirst := Run.Carries.of_sublist hk (hdetach (Run.keeps_later s r) (.refl r)) (.refl _)
      exact hfirst.trans (ih (hdetach (Run.keeps_accounted s before) hr) hspare hfirst.holds)
    | some out =>
      obtain ⟨n', r'⟩ := out
      rw [hu] at hspare
      dsimp only at hspare ⊢
      obtain ⟨pre, c, post, hcs, -, rfl, rfl⟩ := Node.updateChild?_eq_some hu
      have hroom := hspare.earlier (playChildren_keeps (Run.keeps_later s _)
        (hp.obeys _ (Run.keeps_later s _)) gs _ (.refl _))
      have hfirst := hp.child hcs hr hroom hk
      exact hfirst.trans (ih (hp.obeys.accounted g c hr) hspare hfirst.holds)

theorem playFrame_carries (hp : p.Carries s before) (hr : r.Accounted s before) (t : Timeline)
    (hspare : (playFrame s p h t n r).2.Sparing s before) (hk : r.Holds s before n.handles) :
    r.Carries s before n.handles (playFrame s p h t n r).2 (playFrame s p h t n r).1.handles := by
  have hkeeps := Run.keeps_accounted s before
  have hlater := Run.keeps_later s
  cases hx : r.arena.get? h with
  | none =>
    rw [playFrame_of_dead s p hx]
    exact .of_sublist hk (.refl r) (.refl _)
  | some x =>
    cases hframe : t.frames[if x.cursor = t.frameCount then 0 else x.cursor]? with
    | none =>
      rw [playFrame_of_none s p hx hframe]
      exact .of_sublist hk ((hlater r).seek (.refl r) h _) (.refl _)
    | some frame =>
      rw [playFrame_eq s p hx hframe] at hspare ⊢
      dsimp only at hspare ⊢
      have hspare := hspare.earlier ((hlater _).advance (.refl _) h)
      generalize hr' : Run.emit _ _ = r' at hspare ⊢
      have hemit : ∀ {P : Run → Prop}, s.Keeps P → P r → P r' := fun hs hP =>
        hr' ▸ hs.emit (hs.seek hP h _) rfl
      have hstart := Run.Carries.of_sublist hk (hemit (hlater r) (.refl r)) (.refl _)
      have hcommands := executeAll_carries hp (hemit hkeeps hr) _ hspare hstart.holds
      exact (hstart.trans hcommands).trans
        (.of_sublist hcommands.holds ((hlater _).advance (.refl _) h) (.refl _))

theorem playStep_carries (hp : p.Carries s before) : (playStep s p).Carries s before where
  obeys P hs := playStep_keeps hs (hp.obeys P hs)
  head := playStep_head s p
  plays {h n r} hr hspare hk := by
    cases hx : r.arena.get? h with
    | none =>
      rw [playStep_of_dead s p hx]
      exact .of_sublist hk (.refl r) (.refl _)
    | some x =>
      by_cases hcount : x.timeline.frameCount = 0
      · rw [playStep_of_empty s p hx hcount]
        exact .of_sublist hk (.refl r) (.refl _)
      · rw [playStep_eq s p hx hcount] at hspare ⊢
        dsimp only at hspare ⊢
        have hroom := hspare.earlier (playFrame_keeps (Run.keeps_later s _)
          (hp.obeys _ (Run.keeps_later s _)) h x.timeline _ (.refl _))
        have hchildren := playChildren_carries hp hr x.children hroom hk
        have hr' := playChildren_keeps (Run.keeps_accounted s before)
          (hp.obeys _ (Run.keeps_accounted s before)) x.children n hr
        exact hchildren.trans (playFrame_carries hp hr' x.timeline hspare hchildren.holds)

theorem playChain_carries (s : Setting) (before : List (Handle × Timeline)) (n : Nat) :
    (playChain s idle n).Carries s before := by
  refine playChain_induction s ?_ (fun _ hp => playStep_carries hp) n
  exact ⟨fun _ _ _ _ _ hr => hr, fun _ _ _ => rfl, fun _ _ hk => .of_sublist hk (.refl _) (.refl _)⟩

end Commands

end SceneReel
