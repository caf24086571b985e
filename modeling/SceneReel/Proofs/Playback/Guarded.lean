import Mathlib.Data.Set.Basic
import SceneReel.Proofs.Playback.Cast
import SceneReel.Proofs.Playback.LinkedPlay

/-!
What playback keeps of a run while certain animators stay out of play: no node carries one of them, so
that none is played or retired with its node. A guard says what is kept and why each change of a run
keeps it; all of playback then does.
-/
namespace SceneReel

/-- Something about runs that each change of a run keeps, if no barred animator is retired. -/
structure Guard (s : Setting) where
  /-- The animators that no node may carry. -/
  barred : Set Handle
  /-- The animators that may play at a point of a run. -/
  may : Run → Set Handle
  /-- What is kept, -/
  holds : Run → Prop
  /-- as long as the run has had room. -/
  room : Run → Prop
  room_earlier : ∀ {r r'}, Run.Later r r' → room r' → room r
  may_later : ∀ {r r'}, Run.Later r r' → may r ⊆ may r'
  emit : ∀ {r e}, holds r → e.isChange = false → holds (r.emit e)
  retire : ∀ {r}, holds r → room r → ∀ reason h, h ∉ barred →
    (reason = .detached → s.options.retireDetached = true) → holds (r.retire reason h)
  start : ∀ {r owner char t}, holds r → owner ∈ may r → s.resolve char = some (.timeline t) →
    ∀ object, room (r.start t owner (r.spawnDepth owner) object char) →
    holds (r.start t owner (r.spawnDepth owner) object char) ∧
    (r.arena.spawn t owner (r.spawnDepth owner)).1 ∉ barred ∧
    (r.arena.spawn t owner (r.spawnDepth owner)).1 ∈
      may (r.start t owner (r.spawnDepth owner) object char)
  modify : ∀ {r h}, holds r → room r → h ∈ may r → ∀ f, (∀ x, ∃ k, f x = { x with cursor := k }) →
    holds { r with arena := r.arena.modify h f }
  listed : ∀ {r h x}, holds r → room r → h ∈ may r → r.arena.get? h = some x → ∀ g ∈ x.children,
    (g ∉ barred → g ∈ may r) ∧ (s.options.retireDetached = true → g ∉ barred)

variable {s : Setting} {G : Guard s} {p : Player} {n m : Node} {r : Run}

namespace Guard

/-- No barred animator is among these. -/
def Clears (G : Guard s) (hs : List Handle) : Prop :=
  ∀ g ∈ hs, g ∉ G.barred

theorem Clears.subset {hs hs' : List Handle} (h : G.Clears hs) (hsub : hs' ⊆ hs) : G.Clears hs' :=
  fun g hg => h g (hsub hg)

theorem Clears.carried_of_head (hhead : m.head = n.head) (hn : G.Clears n.carried)
    (hm : G.Clears m.handles) : G.Clears m.carried := by
  intro g hg
  rcases Node.mem_carried.mp hg with hg | hg
  · rw [Node.animator?_of_head hhead] at hg
    exact hn g (Node.mem_carried.mpr (.inl hg))
  · exact hm g hg

end Guard

/-- A player that lets no barred animator into the tree, and keeps what the guard says. -/
structure Player.Heeds (G : Guard s) (p : Player) : Prop where
  obeys : p.Obeys s
  head : p.KeepsHead
  plays : ∀ {h n r}, h ∈ G.may r → G.Clears n.handles → G.holds r → G.room (p h n r).2 →
    G.holds (p h n r).2 ∧ G.Clears (p h n r).1.handles

section Later

theorem settle_later (hp : p.Obeys s) (owner : Handle) (c : Command) (n : Node) (r : Run) :
    Run.Later r (c.settle s p owner n r) :=
  settle_keeps (Run.keeps_later s r) (hp _ (Run.keeps_later s r)) owner c n (.refl r)

theorem executeAll_later (hp : p.Obeys s) (owner : Handle) (cs : List Command) (n : Node) (r : Run) :
    Run.Later r (Command.executeAll s p owner cs n r).2 :=
  executeAll_keeps (Run.keeps_later s r) (hp _ (Run.keeps_later s r)) owner cs n (.refl r)

theorem playChildren_later (hp : p.Obeys s) (hs : List Handle) (n : Node) (r : Run) :
    Run.Later r (playChildren s p hs n r).2 :=
  playChildren_keeps (Run.keeps_later s r) (hp _ (Run.keeps_later s r)) hs n (.refl r)

theorem playFrame_later (hp : p.Obeys s) (h : Handle) (t : Timeline) (n : Node) (r : Run) :
    Run.Later r (playFrame s p h t n r).2 :=
  playFrame_keeps (Run.keeps_later s r) (hp _ (Run.keeps_later s r)) h t n (.refl r)

end Later

theorem spawn_heeds (hp : p.Heeds G) {owner : Handle} (howner : owner ∈ G.may r) {char : CharId}
    {t : Timeline} (hchar : s.resolve char = some (.timeline t)) (hn : G.Clears n.carried)
    (hr : G.holds r) (hroom : G.room (spawn s p owner char t n r).2) :
    G.holds (spawn s p owner char t n r).2 ∧ G.Clears (spawn s p owner char t n r).1.carried := by
  by_cases hd : s.options.maxNestingDepth < r.spawnDepth owner
  · rw [spawn_of_lt hd]
    exact ⟨G.emit hr rfl, hn⟩
  · rw [spawn_of_le (Nat.le_of_not_lt hd)] at hroom ⊢
    obtain ⟨hstart, hfresh, hmay⟩ := G.start hr howner hchar n.id
      (G.room_earlier (hp.obeys.later _ _ _) hroom)
    generalize (r.arena.spawn t owner (r.spawnDepth owner)).1 = child at *
    have hbelow : G.Clears n.handles := fun g hg => hn g (Node.mem_carried.mpr (.inr hg))
    obtain ⟨hplayed, hout⟩ := hp.plays (n := { n with kind := .clip char (some child) }) hmay hbelow
      hstart hroom
    refine ⟨hplayed, Guard.Clears.carried_of_head (hp.head _ _ _) (fun g hg => ?_) hout⟩
    rcases Node.mem_carried.mp hg with hg | hg
    · cases hg
      exact hfresh
    · exact hbelow g hg

theorem enter_heeds (hp : p.Heeds G) {owner : Handle} (howner : owner ∈ G.may r) (char : CharId)
    (object : ObjectId) (mat : Geometry.Matrix) (hr : G.holds r)
    (hroom : G.room (Command.enter s p owner char object mat r).2) :
    G.holds (Command.enter s p owner char object mat r).2 ∧
      G.Clears (Command.enter s p owner char object mat r).1.carried := by
  by_cases hchar : ∃ t, s.resolve char = some (.timeline t)
  · obtain ⟨t, hchar⟩ := hchar
    rw [enter_of_timeline hchar] at hroom ⊢
    exact spawn_heeds hp howner hchar (fun g hg => (List.not_mem_nil hg).elim) hr hroom
  · obtain ⟨he, hclip⟩ := enter_of_still (p := p) (h := owner) (r := r)
      (fun t ht => hchar ⟨t, ht⟩) object mat
    rw [he]
    refine ⟨hr, fun g hg => ?_⟩
    rcases Node.mem_carried.mp hg with hg | hg
    · unfold Node.animator? at hg
      split at hg
      · exact absurd ‹_› (hclip _ _)
      · cases hg
    · exact (List.not_mem_nil hg).elim

theorem retireAll_heeds {hs : List Handle} (hhs : G.Clears hs) (hr : G.holds r)
    (hroom : G.room (hs.foldl (Run.retire · .removed) r)) :
    G.holds (hs.foldl (Run.retire · .removed) r) := by
  induction hs generalizing r with
  | nil => exact hr
  | cons h hs ih =>
    have hlater : Run.Later r ((h :: hs).foldl (Run.retire · .removed) r) :=
      retireAll_keeps (Run.keeps_later s r) _ _ (.refl r)
    refine ih (hhs.subset (List.subset_cons_self h hs)) ?_ hroom
    exact G.retire hr (G.room_earlier hlater hroom) .removed h (hhs h List.mem_cons_self) nofun

theorem settle_heeds (hp : p.Heeds G) {owner : Handle} (howner : owner ∈ G.may r) (c : Command)
    (hn : G.Clears n.handles) (hr : G.holds r) (hroom : G.room (c.settle s p owner n r)) :
    G.holds (c.settle s p owner n r) := by
  cases c with
  | place char object before mat => exact (enter_heeds hp howner char object mat hr hroom).1
  | remove object =>
    refine retireAll_heeds (fun g hg => ?_) hr hroom
    obtain ⟨c, hc, hcg⟩ := List.mem_filterMap.mp hg
    exact hn g (Node.mem_carriedAll.mpr ⟨c, (List.mem_filter.mp hc).1, Node.mem_carried.mpr (.inl hcg)⟩)
  | _ => exact hr

theorem arrange_heeds (hp : p.Heeds G) {owner : Handle} (howner : owner ∈ G.may r) (c : Command)
    (hn : G.Clears n.handles) (hr : G.holds r) (hroom : G.room (c.settle s p owner n r)) :
    G.Clears (Node.carriedAll (c.arrange Command.nodes
      (fun x y m => (Command.enter s p owner x y m r).1) n.children)) := by
  intro g hg
  obtain ⟨b, hb, hbg⟩ := Node.mem_carriedAll.mp hg
  rcases Command.mem_arrange hb with ⟨b', hb', hcore⟩ | ⟨char, object, before, mat, rfl, rfl⟩
  · rw [← Node.carried_of_core hcore] at hbg
    exact hn g (Node.mem_carriedAll.mpr ⟨b', hb', hbg⟩)
  · exact (enter_heeds hp howner char object mat hr hroom).2 g hbg

theorem executeAll_heeds (hp : p.Heeds G) {owner : Handle} (howner : owner ∈ G.may r)
    (cs : List Command) (hn : G.Clears n.handles) (hr : G.holds r)
    (hroom : G.room (Command.executeAll s p owner cs n r).2) :
    G.holds (Command.executeAll s p owner cs n r).2 ∧
      G.Clears (Command.executeAll s p owner cs n r).1.handles := by
  induction cs generalizing n r with
  | nil => exact ⟨hr, hn⟩
  | cons c cs ih =>
    rw [Command.executeAll_cons] at hroom ⊢
    have hreported : Run.Later (c.settle s p owner n r) ((c.settle s p owner n r).emit
        (.command owner c.kind c.object (c.execute s p owner n r).1)) :=
      (Run.keeps_later s _).emit (.refl _) rfl
    have hlater := (settle_later hp.obeys owner c n r).trans hreported
    have hmid : G.room (c.settle s p owner n r) :=
      G.room_earlier (hreported.trans (executeAll_later hp.obeys owner cs _ _)) hroom
    exact ih (G.may_later hlater howner) (arrange_heeds hp howner c hn hr hmid)
      (G.emit (settle_heeds hp howner c hn hr hmid) rfl) hroom

/-- Listed animators play on the children that host them; the others retire only if no animator in play
lists a barred one. -/
theorem playChildren_heeds (hp : p.Heeds G) (hs : List Handle)
    (hhs : ∀ g ∈ hs, (g ∉ G.barred → g ∈ G.may r) ∧ (s.options.retireDetached = true → g ∉ G.barred))
    (hn : G.Clears n.handles) (hr : G.holds r) (hroom : G.room (playChildren s p hs n r).2) :
    G.holds (playChildren s p hs n r).2 ∧ G.Clears (playChildren s p hs n r).1.handles := by
  induction hs generalizing n r with
  | nil => exact ⟨hr, hn⟩
  | cons h hs ih =>
    obtain ⟨hmay, hdetach⟩ := hhs h List.mem_cons_self
    -- the rest of the list was read before, and is played later; who may play then may play still
    have hothers : ∀ {r'}, Run.Later r r' → ∀ g ∈ hs,
        (g ∉ G.barred → g ∈ G.may r') ∧ (s.options.retireDetached = true → g ∉ G.barred) :=
      fun hlater g hg => (hhs g (List.mem_cons_of_mem h hg)).imp_left
        fun hg hclear => G.may_later hlater (hg hclear)
    rw [playChildren] at hroom ⊢
    split at hroom
    · rename_i target run heq
      obtain ⟨pre, c, post, hcs, hhost, rfl, rfl⟩ := Node.updateChild?_eq_some heq
      have hall : ∀ b ∈ n.children, G.Clears b.carried := fun b hb g hg =>
        hn g (Node.mem_carriedAll.mpr ⟨b, hb, hg⟩)
      rw [hcs] at hall
      have hc : G.Clears c.carried := hall c (List.mem_append_right pre List.mem_cons_self)
      have hplay := hmay (hc h (Node.mem_carried.mpr (.inl (of_decide_eq_true hhost))))
      have hbelow : G.Clears c.handles := fun g hg => hc g (Node.mem_carried.mpr (.inr hg))
      obtain ⟨hplayed, hout⟩ := hp.plays hplay hbelow hr
        (G.room_earlier (playChildren_later hp.obeys hs _ _) hroom)
      refine ih (hothers (hp.obeys.later h c r)) (fun g hg => ?_) hplayed hroom
      obtain ⟨b, hb, hbg⟩ := Node.mem_carriedAll.mp hg
      rcases List.mem_append.mp hb with hb | hb
      · exact hall b (List.mem_append_left _ hb) g hbg
      · rcases List.mem_cons.mp hb with rfl | hb
        · exact Guard.Clears.carried_of_head (hp.head h c r) hc hout g hbg
        · exact hall b (List.mem_append_right pre (List.mem_cons_of_mem c hb)) g hbg
    · by_cases hoption : s.options.retireDetached = true
      · rw [if_pos hoption] at hroom ⊢
        have hretired := (Run.keeps_later s r).retire (.refl r) .detached h
        have hbefore : G.room r :=
          G.room_earlier (hretired.trans (playChildren_later hp.obeys hs n _)) hroom
        exact ih (hothers hretired) hn
          (G.retire hr hbefore .detached h (hdetach hoption) fun _ => hoption) hroom
      · rw [if_neg hoption] at hroom ⊢
        exact ih (hothers (.refl r)) hn hr hroom

theorem playFrame_heeds (hp : p.Heeds G) {h : Handle} (hmay : h ∈ G.may r) (t : Timeline)
    (hn : G.Clears n.handles) (hr : G.holds r) (hroom : G.room (playFrame s p h t n r).2) :
    G.holds (playFrame s p h t n r).2 ∧ G.Clears (playFrame s p h t n r).1.handles := by
  have hbefore : G.room r := G.room_earlier (playFrame_later hp.obeys h t n r) hroom
  cases hx : r.arena.get? h with
  | none =>
    rw [playFrame_of_dead s p hx]
    exact ⟨hr, hn⟩
  | some x =>
    generalize hk : (if x.cursor = t.frameCount then 0 else x.cursor) = k
    have hsought : G.holds (r.seek h k) := G.modify hr hbefore hmay _ fun _ => ⟨k, rfl⟩
    have hseek : Run.Later r (r.seek h k) := (Run.keeps_later s r).seek (.refl r) h k
    cases hframe : t.frames[k]? with
    | none =>
      rw [playFrame_of_none s p hx (hk ▸ hframe), hk]
      exact ⟨hsought, hn⟩
    | some frame =>
      rw [playFrame_eq s p hx (hk ▸ hframe), hk] at hroom ⊢
      dsimp only at hroom ⊢
      generalize (Plan.ofFrame n.childIds frame _).commands = cs at hroom ⊢
      generalize hr' : (r.seek h k).emit _ = r' at hroom ⊢
      have hreported : G.holds r' := hr' ▸ G.emit hsought rfl
      have hlater : Run.Later r r' := hr' ▸ (Run.keeps_later s r).emit hseek rfl
      have hafter := hlater.trans (executeAll_later hp.obeys h cs n r')
      have hmid := G.room_earlier ((Run.keeps_later s _).advance (.refl _) h) hroom
      obtain ⟨hexecuted, hout⟩ := executeAll_heeds hp (G.may_later hlater hmay) cs hn hreported hmid
      exact ⟨G.modify hexecuted hmid (G.may_later hafter hmay) _ fun x => ⟨x.cursor + 1, rfl⟩, hout⟩

theorem playStep_heeds (hp : p.Heeds G) : (playStep s p).Heeds G where
  obeys _ hs := playStep_keeps hs (hp.obeys _ hs)
  head := playStep_head s p
  plays {h n r} hmay hn hr hroom := by
    have hbefore : G.room r := G.room_earlier
      (playStep_keeps (Run.keeps_later s r) (hp.obeys _ (Run.keeps_later s r)) h n (.refl r)) hroom
    cases hx : r.arena.get? h with
    | none =>
      rw [playStep_of_dead s p hx]
      exact ⟨hr, hn⟩
    | some x =>
      by_cases hcount : x.timeline.frameCount = 0
      · rw [playStep_of_empty s p hx hcount]
        exact ⟨hr, hn⟩
      · rw [playStep_eq s p hx hcount] at hroom ⊢
        obtain ⟨hplayed, hout⟩ := playChildren_heeds hp x.children (G.listed hr hbefore hmay hx) hn hr
          (G.room_earlier (playFrame_later hp.obeys h x.timeline _ _) hroom)
        exact playFrame_heeds hp (G.may_later (playChildren_later hp.obeys x.children n r) hmay)
          x.timeline hout hplayed hroom

/-- All of playback keeps what a guard says. -/
theorem playChain_heeds (G : Guard s) (k : Nat) : (playChain s idle k).Heeds G :=
  playChain_induction s
    ⟨playChain_obeys s 0, fun _ _ _ => rfl, fun _ hn hr _ => ⟨hr, hn⟩⟩
    (fun _ hp => playStep_heeds hp) k

end SceneReel
