import Mathlib.Data.Fintype.Pigeonhole
import Mathlib.Data.List.Permutation
import Mathlib.Data.Set.Finite.Basic
import SceneReel.Proofs.Animator.Reference
import SceneReel.Proofs.Playback.Laps
import SceneReel.Proofs.Playback.LinkedPlay
import SceneReel.Proofs.Timeline.Renewal

/-!
Looping of a timeline without clips. From the second round on each frame shows the nodes that it showed a
round before, and already in the first round they have the same ids and transforms. The z-order comes
back too, though perhaps only after some rounds: nodes that survive a round keep their place.
-/
namespace SceneReel

open SceneReel.Geometry

/-- The timeline places no character that has a timeline. -/
def Timeline.Still (resolve : CharId → Option Resolved) (t : Timeline) : Prop :=
  ∀ f ∈ t.frames, ∀ char object before m, Command.place char object before m ∈ f.known →
    ∀ u, resolve char ≠ some (.timeline u)

/-- The node that a placement of a character without a timeline adds. -/
def Node.still (resolve : CharId → Option Resolved) (char : CharId) (object : ObjectId)
    (m : Matrix) : Node :=
  { id := object, kind := .ofResolved char (resolve char), transform := m.decompose }

def Frame.arrange (resolve : CharId → Option Resolved) (looped : Bool) (f : Frame)
    (cs : List Node) : List Node :=
  Command.arrangeAll Command.nodes (Node.still resolve)
    (Plan.ofFrame (cs.map Node.id) f looped).commands cs

theorem Plan.mem_known_of_mem_ofFrame {ids : List ObjectId} {f : Frame} {looped : Bool}
    {char : CharId} {object : ObjectId} {before : Option ObjectId} {m : Matrix}
    (hc : Command.place char object before m ∈ (ofFrame ids f looped).commands) :
    Command.place char object before m ∈ f.known := by
  have hsteps : ∀ (cs : List FrameCommand) (live : List ObjectId),
      Command.place char object before m ∈ steps live cs →
        Command.place char object before m ∈ cs.filterMap FrameCommand.command? := by
    intro cs
    induction cs with
    | nil => exact fun live hc => hc
    | cons c cs ih =>
      intro live hc
      cases c with
      | unsupported type => exact ih live hc
      | known c =>
        rcases List.mem_append.mp hc with hc | hc
        · cases c with
          | place char' object' before' m' =>
            dsimp only at hc
            split at hc
            · simp at hc
            · rw [List.mem_singleton.mp hc]
              exact List.mem_cons_self
          | _ => cases List.mem_singleton.mp hc
        · exact List.mem_cons_of_mem _ (ih _ hc)
  rcases List.mem_append.mp hc with hc | hc
  · obtain ⟨_, -, he⟩ := List.mem_map.mp hc
    cases he
  · exact hsteps _ _ hc

section Root

variable {s : Setting} {p : Player} {h : Handle} {x : Animation} {n : Node} {r : Run}

theorem Node.animator?_still (resolve : CharId → Option Resolved) {char : CharId}
    (hr : ∀ u, resolve char ≠ some (.timeline u)) (object : ObjectId) (m : Matrix) :
    (still resolve char object m).animator? = none := by
  unfold animator? still NodeKind.ofResolved
  cases hc : resolve char with
  | none => rfl
  | some v =>
    cases v with
    | timeline u => exact absurd hc (hr u)
    | _ => rfl

theorem executeAll_still {cs : List Command} (hs : ∀ char object before m,
      Command.place char object before m ∈ cs → ∀ u, s.resolve char ≠ some (.timeline u)) :
    (Command.executeAll s p h cs n r).1.children =
      Command.arrangeAll Command.nodes (Node.still s.resolve) cs n.children := by
  induction cs generalizing n r with
  | nil => rfl
  | cons c cs ih =>
    rw [Command.executeAll_cons, ih fun char object before m hc =>
      hs char object before m (List.mem_cons_of_mem _ hc)]
    refine congrArg (Command.arrangeAll _ _ cs) ?_
    have hsame : Command.Respects (fun b b' : Node => b = b') Command.nodes Command.nodes :=
      ⟨fun _ _ h => congrArg Node.id h, fun m _ _ h => congrArg (Command.nodes.move m) h,
        fun b _ _ h => congrArg (Command.nodes.setVisible b) h⟩
    rw [← List.forall₂_eq_eq_eq]
    refine Command.arrange_congr hsame c (List.forall₂_same.mpr fun _ _ => rfl) ?_
    rintro char object before m rfl
    rw [(enter_of_still (hs char object before m List.mem_cons_self) object m).1]
    rfl

/-- A root animator whose node has no clips does to it what the frame says. -/
theorem playStep_still (hp : ∀ x, p.Spares h x) (hk : p.KeepsHead) (hr : r.arena.Roots h x)
    (hn : h ∉ n.handles) (hbare : ∀ c ∈ n.children, c.animator? = none) {frame : Frame}
    (hframe : x.timeline.frames[if x.cursor = x.timeline.frameCount then 0 else x.cursor]? =
      some frame) (hs : x.timeline.Still s.resolve) :
    (playStep s p h n r).1.children =
      frame.arrange s.resolve (x.cursor == x.timeline.frameCount) n.children := by
  obtain ⟨l, hl⟩ := hr.live
  rw [playStep_eq s p hl (Timeline.frameCount_ne_zero hframe)]
  obtain ⟨hroots, -⟩ := playChildren_spares (s := s) (hp x) hk l (hr.unlisted hl) hn hr
  have hsame : (playChildren s p l n r).1 = n := by rw [playChildren_of_bare s p hbare]
  generalize playChildren s p l n r = played at hroots hsame
  obtain ⟨n', r'⟩ := played
  cases hsame
  obtain ⟨l', hl'⟩ := hroots.live
  rw [playFrame_eq s p hl' hframe]
  refine executeAll_still fun char object before m hc => ?_
  exact hs frame (List.mem_of_getElem? hframe) char object before m (Plan.mem_known_of_mem_ofFrame hc)

end Root

namespace Animator

def shown (t : Timeline) (options : Options) (resolve : CharId → Option Resolved) (target : Node)
    (n : Nat) : List Node :=
  (ticks resolve n (target, start t options)).1.children

variable {t : Timeline} {options : Options} {resolve : CharId → Option Resolved} {target : Node}
  {n : Nat} {id : ObjectId}

/-- From an empty target, what is shown reads as the frames of the current round. -/
theorem follows_ticks (options : Options) (resolve : CharId → Option Resolved)
    (ht : t.frameCount ≠ 0) (hempty : target.children = []) (n : Nat) :
    Follows t (n % t.frameCount + 1)
      ((t.frames.take (n % t.frameCount + 1)).foldl (Frame.read Matrix.decompose) fun _ => none)
      (ticks resolve (n + 1) (target, start t options)) := by
  have hstart : Follows t 0 (fun _ => none) (target, start t options) := by
    refine ⟨roots_start t options, ?_, ?_, fun id x => ?_⟩
    · rw [Node.handles, hempty]
      exact List.not_mem_nil
    · rw [hempty]
      exact List.nodup_nil
    · rw [hempty]
      simp
  have hdiv : n = n / t.frameCount * t.frameCount + n % t.frameCount := by
    rw [Nat.mul_comm]
    exact (Nat.div_add_mod _ _).symm
  have hend := hstart.ticks resolve hdiv (Nat.mod_lt _ (Nat.pos_of_ne_zero ht))
  rwa [ite_self] at hend

theorem nodup_shown (ht : t.frameCount ≠ 0) (hempty : target.children = []) (n : Nat) :
    ((shown t options resolve target n).map Node.id).Nodup := by
  cases n with
  | zero =>
    rw [shown, ticks, hempty]
    exact List.nodup_nil
  | succ n =>
    have h := (follows_ticks options resolve ht hempty n).reads.nodup
    rwa [Node.map_fst_entry] at h

theorem bare_arrange {f : Frame} {looped : Bool} {cs : List Node}
    (hs : ∀ char object before m, Command.place char object before m ∈ f.known →
      ∀ u, resolve char ≠ some (.timeline u))
    (hbare : ∀ c ∈ cs, c.animator? = none) :
    ∀ c ∈ f.arrange resolve looped cs, c.animator? = none := by
  have hall : ∀ (cmds : List Command) (cs : List Node), (∀ char object before m,
      Command.place char object before m ∈ cmds → ∀ u, resolve char ≠ some (.timeline u)) →
      (∀ c ∈ cs, c.animator? = none) →
      ∀ c ∈ Command.arrangeAll Command.nodes (Node.still resolve) cmds cs, c.animator? = none := by
    intro cmds
    induction cmds with
    | nil => exact fun cs _ hbare => hbare
    | cons cmd cmds ih =>
      intro cs hs hbare
      refine ih _ (fun char object before m hc => hs char object before m
        (List.mem_cons_of_mem _ hc)) fun c hc => ?_
      rcases Command.mem_arrange hc with ⟨b, hb, hcore⟩ | ⟨char, object, before, m, rfl, rfl⟩
      · exact (Node.animator?_of_core hcore).symm.trans (hbare b hb)
      · exact Node.animator?_still resolve (hs char object before m List.mem_cons_self) object m
  exact hall _ _ (fun char object before m hc => hs char object before m
    (Plan.mem_known_of_mem_ofFrame hc)) hbare

theorem cursor_ticks (options : Options) (resolve : CharId → Option Resolved)
    (ht : t.frameCount ≠ 0) (hempty : target.children = []) (n : Nat) :
    ∃ x : Animation, x.timeline = t ∧
      (ticks resolve n (target, start t options)).2.arena.Roots
        (ticks resolve n (target, start t options)).2.root x ∧
      (ticks resolve n (target, start t options)).2.root ∉
        (ticks resolve n (target, start t options)).1.handles ∧
      (x.cursor = t.frameCount ↔ n ≠ 0 ∧ n % t.frameCount = 0) ∧
      (if x.cursor = t.frameCount then 0 else x.cursor) = n % t.frameCount := by
  cases n with
  | zero =>
    obtain ⟨x, hroots, hx, hcursor⟩ := roots_start t options
    refine ⟨x, hx, hroots, ?_, ?_, ?_⟩
    · show _ ∉ target.handles
      rw [Node.handles, hempty]
      exact List.not_mem_nil
    · rw [hcursor]
      simpa using ht.symm
    · rw [hcursor, ite_self, Nat.zero_mod]
  | succ n =>
    obtain ⟨⟨x, hroots, hx, hcursor⟩, hclear, -⟩ :=
      follows_ticks options resolve ht hempty n
    rw [succ_mod (Nat.pos_of_ne_zero ht)]
    refine ⟨x, hx, hroots, hclear, ?_, by rw [hcursor]⟩
    rw [hcursor]
    split <;> simp [*]

theorem shown_succ_of_bare (ht : t.frameCount ≠ 0) (hs : t.Still resolve)
    (hempty : target.children = []) (n : Nat)
    (hbare : ∀ c ∈ shown t options resolve target n, c.animator? = none) :
    ∃ f, t.frames[n % t.frameCount]? = some f ∧
      shown t options resolve target (n + 1) = f.arrange resolve
        (decide (n ≠ 0 ∧ n % t.frameCount = 0)) (shown t options resolve target n) := by
  obtain ⟨f, hf⟩ : ∃ f, t.frames[n % t.frameCount]? = some f :=
    ⟨_, List.getElem?_eq_getElem (Nat.mod_lt n (Nat.pos_of_ne_zero ht))⟩
  obtain ⟨x, rfl, hroots, hclear, hlooped, hnumber⟩ :=
    cursor_ticks options resolve ht hempty n
  refine ⟨f, hf, ?_⟩
  unfold shown at hbare ⊢
  rw [ticks]
  generalize ticks resolve n (target, start x.timeline options) = p at hroots hclear hbare ⊢
  obtain ⟨m, a⟩ := p
  have hplayer := playChain_spares ⟨resolve, a.options⟩ a.root
  have hplayed := playStep_still (s := ⟨resolve, a.options⟩) (r := { arena := a.arena })
    (fun x => (hplayer x (m.height + a.options.maxNestingDepth)).1) (hplayer x _).2 hroots hclear
    hbare (hnumber ▸ hf) hs
  have hround : (x.cursor == x.timeline.frameCount) =
      decide (n ≠ 0 ∧ n % x.timeline.frameCount = 0) := by
    rw [← decide_eq_decide.mpr hlooped]
    rfl
  rw [← hround]
  exact hplayed

theorem bare_shown (ht : t.frameCount ≠ 0) (hs : t.Still resolve) (hempty : target.children = [])
    (n : Nat) : ∀ c ∈ shown t options resolve target n, c.animator? = none := by
  induction n with
  | zero =>
    intro c hc
    rw [shown, ticks, hempty] at hc
    cases hc
  | succ n ih =>
    obtain ⟨f, hf, hnext⟩ := shown_succ_of_bare ht hs hempty n ih
    rw [hnext]
    exact bare_arrange (hs f (List.mem_of_getElem? hf)) ih

/-- A tick arranges the children as the frame of its number says. -/
theorem shown_succ (options : Options) (ht : t.frameCount ≠ 0) (hs : t.Still resolve)
    (hempty : target.children = []) (n : Nat) : ∃ f, t.frames[n % t.frameCount]? = some f ∧
      shown t options resolve target (n + 1) = f.arrange resolve
        (decide (n ≠ 0 ∧ n % t.frameCount = 0)) (shown t options resolve target n) :=
  shown_succ_of_bare ht hs hempty n (bare_shown ht hs hempty n)

/-- Rounds that begin alike go on alike. -/
theorem shown_add_of_eq (ht : t.frameCount ≠ 0) (hs : t.Still resolve)
    (hempty : target.children = []) {m n : Nat} (k : Nat) (hm : 1 ≤ m)
    (h : shown t options resolve target (m + k * t.frameCount) = shown t options resolve target m)
    (hn : m ≤ n) :
    shown t options resolve target (n + k * t.frameCount) = shown t options resolve target n := by
  induction n, hn using Nat.le_induction with
  | base => exact h
  | succ n hn ih =>
    obtain ⟨f, hf, hnext⟩ := shown_succ options ht hs hempty n
    obtain ⟨f', hf', hnext'⟩ := shown_succ options ht hs hempty (n + k * t.frameCount)
    rw [Nat.add_mul_mod_self_right] at hf' hnext'
    cases hf.symm.trans hf'
    have hlooped : (n + k * t.frameCount ≠ 0 ∧ n % t.frameCount = 0) ↔
        (n ≠ 0 ∧ n % t.frameCount = 0) := by omega
    rw [Nat.add_right_comm, hnext', hnext, ih, decide_eq_decide.mpr hlooped]

/-- What ticks of all later rounds do to the node of an object, they do alike. -/
theorem mends_shown (options : Options) (ht : t.frameCount ≠ 0) (hs : t.Still resolve)
    (hempty : target.children = []) (id : ObjectId) {n : Nat} (hn : 1 ≤ n) (i : Nat) :
    ∃ F, Mends F ∧ ∀ k,
      (shown t options resolve target (n + k * t.frameCount + i)).find? (·.id = id) =
        F ((shown t options resolve target (n + k * t.frameCount)).find? (·.id = id)) := by
  induction i with
  | zero => exact ⟨_, .refl, fun k => rfl⟩
  | succ i ih =>
    obtain ⟨F, hF, hrounds⟩ := ih
    obtain ⟨f, hf, -⟩ := shown_succ options ht hs hempty (n + i)
    refine ⟨_, (Mends.frame (Node.still resolve) id f
      (decide (n + i ≠ 0 ∧ (n + i) % t.frameCount = 0))).comp hF, fun k => ?_⟩
    have hswap : n + k * t.frameCount + i = n + i + k * t.frameCount := by omega
    obtain ⟨f', hf', hnext⟩ := shown_succ options ht hs hempty (n + i + k * t.frameCount)
    rw [Nat.add_mul_mod_self_right] at hf' hnext
    cases hf.symm.trans hf'
    have hlooped : (n + i + k * t.frameCount ≠ 0 ∧ (n + i) % t.frameCount = 0) ↔
        (n + i ≠ 0 ∧ (n + i) % t.frameCount = 0) := by omega
    rw [← hrounds k, hswap, ← Nat.add_assoc, hswap, hnext, decide_eq_decide.mpr hlooped]
    exact find?_ofFrame (fun _ _ _ => rfl) (nodup_shown ht hempty _) f _

theorem entries_perm (options : Options) (resolve : CharId → Option Resolved)
    (ht : t.frameCount ≠ 0) (hempty : target.children = []) {n : Nat} (hn : 1 ≤ n) :
    ((shown t options resolve target (n + t.frameCount)).map Node.entry).Perm
      ((shown t options resolve target n).map Node.entry) := by
  obtain ⟨n, rfl⟩ := Nat.exists_eq_add_of_le' hn
  have hnow := (follows_ticks options resolve ht hempty n).reads
  have hnext :=
    (follows_ticks options resolve ht hempty (n + t.frameCount)).reads
  rw [Nat.add_mod_right] at hnext
  refine (List.perm_ext_iff_of_nodup ?_ hnow.nodup.of_map).mpr fun x => ?_
  · rw [Nat.add_right_comm]
    exact hnext.nodup.of_map
  · rw [Nat.add_right_comm]
    exact (hnext.mem_iff x.1 x.2).trans (hnow.mem_iff x.1 x.2).symm

/-- From the second round on, the nodes are those of a round before. -/
theorem shown_perm (ht : t.frameCount ≠ 0) (hs : t.Still resolve) (hempty : target.children = [])
    {n : Nat} (hn : t.frameCount < n) :
    (shown t options resolve target (n + t.frameCount)).Perm (shown t options resolve target n) := by
  refine (Node.perm_iff_find?_eq (nodup_shown ht hempty _) (nodup_shown ht hempty _)).mpr
    fun id => ?_
  obtain ⟨m, rfl⟩ : ∃ m, n = m + t.frameCount := ⟨n - t.frameCount, by omega⟩
  have hm : 1 ≤ m := by omega
  obtain ⟨F, hF, hrounds⟩ := mends_shown options ht hs hempty id hm t.frameCount
  have hfirst := hrounds 0
  have hsecond := hrounds 1
  rw [Nat.zero_mul, Nat.add_zero] at hfirst
  rw [Nat.one_mul] at hsecond
  rw [hsecond, hfirst]
  have hids := (entries_perm options resolve ht hempty hm).map Prod.fst
  rw [List.map_map, List.map_map] at hids
  have hthere : id ∈ (shown t options resolve target (m + t.frameCount)).map Node.id ↔
      id ∈ (shown t options resolve target m).map Node.id := hids.mem_iff
  cases hx : (shown t options resolve target m).find? (·.id = id) with
  | none =>
    have hout := Node.find?_eq_none_iff.mpr (hthere.not.mpr (Node.find?_eq_none_iff.mp hx))
    rw [hfirst, hx] at hout
    rw [hout, hout]
  | some a =>
    obtain ⟨b, hb⟩ := Node.exists_find?_iff.mpr (hthere.mpr (Node.exists_find?_iff.mp ⟨a, hx⟩))
    rw [hfirst, hx] at hb
    rw [hb, hF.again hb]

/-- As there are only so many orders of the same nodes, some round repeats an earlier one. -/
theorem exists_shown_add_eq (ht : t.frameCount ≠ 0) (hs : t.Still resolve)
    (hempty : target.children = []) : ∃ k m, 1 ≤ k ∧ ∀ n, m ≤ n →
      shown t options resolve target (n + k * t.frameCount) = shown t options resolve target n := by
  have hperm : ∀ i, (shown t options resolve target (t.frameCount + 1 + i * t.frameCount)).Perm
      (shown t options resolve target (t.frameCount + 1)) := by
    intro i
    induction i with
    | zero => simp
    | succ i ih =>
      rw [Nat.succ_mul, ← Nat.add_assoc]
      exact (shown_perm ht hs hempty (by omega)).trans ih
  let orders := (shown t options resolve target (t.frameCount + 1)).permutations
  have hfinite : Finite { cs // cs ∈ orders } := orders.finite_toSet.to_subtype
  obtain ⟨i, j, hne, heq⟩ := Finite.exists_ne_map_eq_of_infinite fun i : Nat =>
    (⟨_, List.mem_permutations.mpr (hperm i)⟩ : { cs // cs ∈ orders })
  have heq := congrArg Subtype.val heq
  have hmain : ∀ i j, i < j →
      shown t options resolve target (t.frameCount + 1 + i * t.frameCount) =
        shown t options resolve target (t.frameCount + 1 + j * t.frameCount) →
      ∃ k m, 1 ≤ k ∧ ∀ n, m ≤ n →
        shown t options resolve target (n + k * t.frameCount) =
          shown t options resolve target n := by
    intro i j hij heq
    refine ⟨j - i, t.frameCount + 1 + i * t.frameCount, by omega, fun n hn =>
      shown_add_of_eq ht hs hempty (j - i) (by omega) ?_ hn⟩
    rw [heq, Nat.add_assoc, ← Nat.add_mul, Nat.add_sub_cancel' hij.le]
  rcases Nat.lt_or_gt_of_ne hne with hij | hij
  · exact hmain i j hij heq
  · exact hmain j i hij heq.symm

/-- Four objects; then three of them change places, one is hidden and one replaced. -/
def reshuffling : Timeline :=
  ⟨[⟨[.known (.place ⟨1⟩ ⟨1⟩ none .identity), .known (.place ⟨1⟩ ⟨2⟩ none .identity),
      .known (.place ⟨1⟩ ⟨3⟩ none .identity), .known (.place ⟨1⟩ ⟨4⟩ none .identity)]⟩,
    ⟨[.known (.reorder ⟨1⟩ (some ⟨2⟩)), .known (.reorder ⟨2⟩ (some ⟨3⟩)),
      .known (.reorder ⟨3⟩ (some ⟨1⟩)), .known (.setVisible ⟨1⟩ false), .known (.remove ⟨4⟩),
      .known (.place ⟨2⟩ ⟨4⟩ none .identity)]⟩]⟩

theorem reshuffling_still : reshuffling.Still fun _ => none :=
  fun _ _ _ _ _ _ _ _ h => nomatch h

/-- A new round moves the nodes that are left: they stay hidden, keep their character, and stand where
the last round put them. -/
theorem reshuffling_not_seamless :
    reshuffling.Still (fun _ => none) ∧
    let look (n : Nat) := (shown reshuffling {} (fun _ => none) (.container ⟨0⟩) n).map
      fun c => (c.id, c.kind, c.visible)
    look 1 = [(⟨1⟩, .placeholder ⟨1⟩, true), (⟨2⟩, .placeholder ⟨1⟩, true),
      (⟨3⟩, .placeholder ⟨1⟩, true), (⟨4⟩, .placeholder ⟨1⟩, true)] ∧
    look (1 + reshuffling.frameCount) = [(⟨3⟩, .placeholder ⟨1⟩, true),
      (⟨1⟩, .placeholder ⟨1⟩, false), (⟨2⟩, .placeholder ⟨1⟩, true), (⟨4⟩, .placeholder ⟨2⟩, true)] ∧
    look (1 + 2 * reshuffling.frameCount) = [(⟨2⟩, .placeholder ⟨1⟩, true),
      (⟨3⟩, .placeholder ⟨1⟩, true), (⟨1⟩, .placeholder ⟨1⟩, false), (⟨4⟩, .placeholder ⟨2⟩, true)] ∧
    shown reshuffling {} (fun _ => none) (.container ⟨0⟩) (1 + reshuffling.frameCount) ≠
      shown reshuffling {} (fun _ => none) (.container ⟨0⟩) 1 := by
  refine ⟨reshuffling_still, by decide +kernel, by decide +kernel, by decide +kernel, fun h => ?_⟩
  have hids := congrArg (List.map Node.id) h
  exact absurd hids (by decide +kernel)

/-- Each round shows the ids and transforms of the one before, and from the second on the same nodes, up
to z-order. -/
theorem rounds_repeat (t : Timeline) (options : Options) (resolve : CharId → Option Resolved)
    (target : Node) (ht : t.frameCount ≠ 0) (hs : t.Still resolve) (hempty : target.children = []) :
    (∀ n, 1 ≤ n → ((shown t options resolve target (n + t.frameCount)).map Node.entry).Perm
      ((shown t options resolve target n).map Node.entry)) ∧
    (∀ n, t.frameCount < n → (shown t options resolve target (n + t.frameCount)).Perm
      (shown t options resolve target n)) ∧
    (∃ k m, 1 ≤ k ∧ ∀ n, m ≤ n →
      shown t options resolve target (n + k * t.frameCount) = shown t options resolve target n) ∧
    (∀ m, 1 ≤ m →
      shown t options resolve target (m + t.frameCount) = shown t options resolve target m →
      ∀ n, m ≤ n →
        shown t options resolve target (n + t.frameCount) = shown t options resolve target n) := by
  refine ⟨fun n hn => entries_perm options resolve ht hempty hn, fun n hn => shown_perm ht hs hempty hn,
    exists_shown_add_eq ht hs hempty, fun m hm h n hn => ?_⟩
  have hround := shown_add_of_eq ht hs hempty 1 hm (by rwa [Nat.one_mul]) hn
  rwa [Nat.one_mul] at hround

theorem reshuffling_rounds_repeat :
    reshuffling.frameCount = 2 ∧
    (shown reshuffling {} (fun _ => none) (.container ⟨0⟩) (3 + 2)).Perm
      (shown reshuffling {} (fun _ => none) (.container ⟨0⟩) 3) ∧
    shown replacing {} (fun _ => none) (.container ⟨0⟩) (7 + replacing.frameCount) =
      shown replacing {} (fun _ => none) (.container ⟨0⟩) 7 := by
  obtain ⟨-, hnodes, -, -⟩ := rounds_repeat reshuffling {} (fun _ => none) (.container ⟨0⟩)
    (by decide) reshuffling_still rfl
  obtain ⟨-, -, -, hseamless⟩ := rounds_repeat replacing {} (fun _ => none) (.container ⟨0⟩)
    (by decide) (fun _ _ _ _ _ _ _ _ h => nomatch h) rfl
  exact ⟨rfl, hnodes 3 (by decide), hseamless 1 (by decide) rfl 7 (by decide)⟩

end Animator

end SceneReel
