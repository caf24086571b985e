import SceneReel.Proofs.Arena.Rooted
import SceneReel.Proofs.Playback.Players

/-!
A root animator that no node of its tree carries is left alone: whatever plays below, the root keeps its
timeline and its frame, and no node comes to carry it.
-/
namespace SceneReel

open SceneReel.Geometry

/-- Playing another animator leaves the root, and no node comes to carry it. -/
def Player.Spares (h : Handle) (x : Animation) (p : Player) : Prop :=
  ∀ {g n r}, g ≠ h → h ∉ n.handles → r.arena.Roots h x →
    (p g n r).2.arena.Roots h x ∧ h ∉ (p g n r).1.handles

section Spared

variable {s : Setting} {p : Player} {h : Handle} {x : Animation} {n : Node} {r : Run}

theorem Node.not_mem_carried_of_head {m : Node} (hhead : m.head = n.head) (hn : h ∉ n.carried)
    (hm : h ∉ m.handles) : h ∉ m.carried := by
  rw [Node.carried_eq, List.mem_append, not_or] at hn ⊢
  rw [Node.animator?_of_head hhead]
  exact ⟨hn.1, hm⟩

theorem spawn_spares (hp : p.Spares h x) (hk : p.KeepsHead) (owner : Handle) (char : CharId)
    (t : Timeline) (hn : h ∉ n.carried) (hr : r.arena.Roots h x) :
    (spawn s p owner char t n r).2.arena.Roots h x ∧ h ∉ (spawn s p owner char t n r).1.carried := by
  rw [Node.carried_eq, List.mem_append, not_or] at hn
  by_cases hd : s.options.maxNestingDepth < r.spawnDepth owner
  · rw [spawn_of_lt hd]
    refine ⟨hr, ?_⟩
    rw [Node.carried_eq, List.mem_append, not_or]
    exact hn
  · rw [spawn_of_le (Nat.le_of_not_lt hd)]
    obtain ⟨hne, hspawn⟩ := hr.spawn t owner (r.spawnDepth owner)
    generalize hc : ({ n with kind := .clip char (some _) } : Node) = c
    generalize hr' : r.start t owner _ n.id char = r'
    have hhandles : h ∉ c.handles := hc ▸ hn.2
    obtain ⟨harena, hout⟩ := hp (r := r') hne hhandles (hr' ▸ hspawn)
    refine ⟨harena, Node.not_mem_carried_of_head (hk _ c r') ?_ hout⟩
    rw [Node.carried_eq, List.mem_append, not_or]
    refine ⟨?_, hhandles⟩
    subst hc
    simpa [Node.animator?] using hne.symm

theorem enter_spares (hp : p.Spares h x) (hk : p.KeepsHead) (owner : Handle) (char : CharId)
    (object : ObjectId) (m : Matrix) (hr : r.arena.Roots h x) :
    (Command.enter s p owner char object m r).2.arena.Roots h x ∧
      h ∉ (Command.enter s p owner char object m r).1.carried := by
  have hbare : ∀ t : Transform,
      h ∉ Node.carried ⟨object, .ofResolved char (s.resolve char), t, true, []⟩ := by
    intro t
    rw [Node.carried_eq, List.mem_append, not_or]
    refine ⟨?_, List.not_mem_nil⟩
    unfold Node.animator? NodeKind.ofResolved
    cases s.resolve char with
    | none => exact List.not_mem_nil
    | some v => cases v <;> exact List.not_mem_nil
  unfold Command.enter
  split
  · exact spawn_spares hp hk owner char _ (hbare _) hr
  · exact ⟨hr, hbare _⟩

theorem retireAll_spares (gs : List Handle) (reason : RetireReason) (hgs : h ∉ gs)
    (hr : r.arena.Roots h x) : (gs.foldl (Run.retire · reason) r).arena.Roots h x := by
  induction gs generalizing r with
  | nil => exact hr
  | cons g gs ih =>
    rw [List.mem_cons, not_or] at hgs
    refine ih hgs.2 ?_
    rw [Run.arena_retire]
    exact hr.retire (Ne.symm hgs.1)

theorem settle_spares (hp : p.Spares h x) (hk : p.KeepsHead) (owner : Handle) (c : Command)
    (hn : h ∉ n.handles) (hr : r.arena.Roots h x) :
    (c.settle s p owner n r).arena.Roots h x := by
  cases c with
  | place char object before m => exact (enter_spares hp hk owner char object m hr).1
  | remove object =>
    refine retireAll_spares _ .removed (fun hin => hn ?_) hr
    obtain ⟨c, hc, hg⟩ := List.mem_filterMap.mp hin
    exact Node.mem_carriedAll.mpr ⟨c, (List.mem_filter.mp hc).1, Node.mem_carried.mpr (.inl hg)⟩
  | _ => exact hr

theorem executeAll_spares (hp : p.Spares h x) (hk : p.KeepsHead) (owner : Handle)
    (cs : List Command) (hn : h ∉ n.handles) (hr : r.arena.Roots h x) :
    (Command.executeAll s p owner cs n r).2.arena.Roots h x ∧
      h ∉ (Command.executeAll s p owner cs n r).1.handles := by
  induction cs generalizing n r with
  | nil => exact ⟨hr, hn⟩
  | cons c cs ih =>
    rw [Command.executeAll_cons]
    refine ih (fun hin => ?_) (settle_spares hp hk owner c hn hr)
    obtain ⟨m, hm, hin⟩ := Node.mem_carriedAll.mp hin
    rcases Command.mem_arrange hm with ⟨m', hm', hcore⟩ | ⟨char, object, before, mat, -, rfl⟩
    · refine hn (Node.mem_carriedAll.mpr ⟨m', hm', ?_⟩)
      rwa [Node.carried_of_core hcore]
    · exact (enter_spares hp hk owner char object mat hr).2 hin

theorem playChildren_spares (hp : p.Spares h x) (hk : p.KeepsHead) (gs : List Handle)
    (hgs : h ∉ gs) (hn : h ∉ n.handles) (hr : r.arena.Roots h x) :
    (playChildren s p gs n r).2.arena.Roots h x ∧ h ∉ (playChildren s p gs n r).1.handles := by
  induction gs generalizing n r with
  | nil => exact ⟨hr, hn⟩
  | cons g gs ih =>
    rw [List.mem_cons, not_or] at hgs
    rw [playChildren]
    split
    · rename_i target run heq
      obtain ⟨pre, c, post, hcs, -, rfl, rfl⟩ := Node.updateChild?_eq_some heq
      have hall : ∀ m ∈ n.children, h ∉ m.carried := fun m hm hin =>
        hn (Node.mem_carriedAll.mpr ⟨m, hm, hin⟩)
      rw [hcs] at hall
      have hc := hall c (by simp)
      have hclear : h ∉ c.handles := fun hin => hc (Node.mem_carried.mpr (.inr hin))
      obtain ⟨harena, hout⟩ := hp (Ne.symm hgs.1) hclear hr
      refine ih hgs.2 (fun hin => ?_) harena
      obtain ⟨m, hm, hin⟩ := Node.mem_carriedAll.mp hin
      rcases List.mem_append.mp hm with hm | hm
      · exact hall m (by simp [hm]) hin
      · rcases List.mem_cons.mp hm with rfl | hm
        · exact Node.not_mem_carried_of_head (hk g c r) hc hout hin
        · exact hall m (by simp [hm]) hin
    · refine ih hgs.2 hn ?_
      split
      · rw [Run.arena_retire]
        exact hr.retire (Ne.symm hgs.1)
      · exact hr

theorem playFrame_spares (hp : p.Spares h x) (hk : p.KeepsHead) {g : Handle} (hg : g ≠ h)
    (t : Timeline) (hn : h ∉ n.handles) (hr : r.arena.Roots h x) :
    (playFrame s p g t n r).2.arena.Roots h x ∧ h ∉ (playFrame s p g t n r).1.handles := by
  have hseek (number : Nat) : (r.seek g number).arena.Roots h x :=
    hr.modify g (fun _ hy => hy) fun he => absurd he hg
  cases hy : r.arena.get? g with
  | none =>
    rw [playFrame_of_dead s p hy]
    exact ⟨hr, hn⟩
  | some y =>
    cases hframe : t.frames[if y.cursor = t.frameCount then 0 else y.cursor]? with
    | none =>
      rw [playFrame_of_none s p hy hframe]
      exact ⟨hseek _, hn⟩
    | some frame =>
      rw [playFrame_eq s p hy hframe]
      dsimp only
      generalize (if y.cursor = t.frameCount then 0 else y.cursor) = number
      generalize Plan.report _ g number _ = report
      obtain ⟨harena, hout⟩ := executeAll_spares (s := s) (r := (r.seek g number).emit (.frame report))
        hp hk g (Plan.ofFrame n.childIds frame (y.cursor == t.frameCount)).commands hn (hseek number)
      exact ⟨harena.modify g (fun _ hy => hy) fun he => absurd he hg, hout⟩

/-- The frame of a root animator moves its cursor and spares it otherwise. -/
theorem playFrame_root (hp : ∀ x, p.Spares h x) (hk : p.KeepsHead) (t : Timeline)
    (hn : h ∉ n.handles) (hr : r.arena.Roots h x) {frame : Frame}
    (hframe : t.frames[if x.cursor = t.frameCount then 0 else x.cursor]? = some frame) :
    (playFrame s p h t n r).2.arena.Roots h
        { x with cursor := (if x.cursor = t.frameCount then 0 else x.cursor) + 1 } ∧
      h ∉ (playFrame s p h t n r).1.handles := by
  obtain ⟨l, hl⟩ := hr.live
  rw [playFrame_eq s p hl hframe]
  dsimp only
  generalize (if x.cursor = t.frameCount then 0 else x.cursor) = number
  generalize Plan.report _ h number _ = report
  have hseek : (r.seek h number).arena.Roots h { x with cursor := number } := hr.seek fun l => rfl
  obtain ⟨hroots, hclear⟩ := executeAll_spares (s := s)
    (r := (r.seek h number).emit (.frame report)) (hp _) hk h
    (Plan.ofFrame n.childIds frame (x.cursor == t.frameCount)).commands hn hseek
  exact ⟨hroots.seek fun l => rfl, hclear⟩

theorem playStep_spares (hp : p.Spares h x) (hk : p.KeepsHead) : (playStep s p).Spares h x := by
  intro g n r hg hn hr
  cases hy : r.arena.get? g with
  | none =>
    rw [playStep_of_dead s p hy]
    exact ⟨hr, hn⟩
  | some y =>
    by_cases hcount : y.timeline.frameCount = 0
    · rw [playStep_of_empty s p hy hcount]
      exact ⟨hr, hn⟩
    · rw [playStep_eq s p hy hcount]
      obtain ⟨harena, hout⟩ := playChildren_spares hp hk y.children (hr.unlisted hy) hn hr
      exact playFrame_spares hp hk hg y.timeline hout harena

theorem playChain_spares (s : Setting) (h : Handle) (x : Animation) (n : Nat) :
    (playChain s idle n).Spares h x ∧ (playChain s idle n).KeepsHead :=
  playChain_induction (P := fun p => p.Spares h x ∧ p.KeepsHead) s
    ⟨fun _ hn hr => ⟨hr, hn⟩, fun _ _ _ => rfl⟩
    (fun p hp => ⟨playStep_spares hp.1 hp.2, playStep_head s p⟩) n

end Spared

end SceneReel
