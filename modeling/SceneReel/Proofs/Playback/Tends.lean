import SceneReel.Proofs.Arena.Family
import SceneReel.Proofs.Playback.Carries

/-!
An animator tends the children of its node when each animator that it lists has a node among them, and
tends the children of that in turn. The nodes may carry other handles besides, which name nothing or are
left for later.
-/
namespace SceneReel

open Node (At hosted carriedAll)
open Arena (Forest Descends Lists Retains Upward)

/-- All animators listed, and those they list, have their nodes. -/
inductive Tends (a : Arena) : Handle → List Node → Prop
  | intro {h : Handle} {cs : List Node} {x : Animation} (live : a.get? h = some x)
      (host : Handle → Node) (hosted : ∀ g ∈ x.children, host g ∈ cs ∧ (host g).animator? = some g)
      (below : ∀ g ∈ x.children, Tends a g (host g).children) : Tends a h cs

namespace Tends

variable {a a' : Arena} {g h k : Handle} {cs cs' : List Node} {n : Node} {x : Animation}
  {V : Set Handle}

theorem live (ht : Tends a h cs) : ∃ x, a.get? h = some x := by
  obtain ⟨live, -, -, -⟩ := ht
  exact ⟨_, live⟩

theorem clip (ht : Tends a h cs) (hx : a.get? h = some x) (hg : g ∈ x.children) :
    ∃ c ∈ cs, c.animator? = some g ∧ Tends a g c.children := by
  obtain ⟨live, host, hosted, below⟩ := ht
  rw [live] at hx
  cases hx
  exact ⟨host g, (hosted g hg).1, (hosted g hg).2, below g hg⟩

theorem of_clips (hx : a.get? h = some x)
    (hclips : ∀ g ∈ x.children, ∃ c ∈ cs, c.animator? = some g ∧ Tends a g c.children) :
    Tends a h cs := by
  have hhost : ∀ g, ∃ c : Node, g ∈ x.children →
      c ∈ cs ∧ c.animator? = some g ∧ Tends a g c.children := fun g => by
    by_cases hg : g ∈ x.children
    · obtain ⟨c, hc, hgc, ht⟩ := hclips g hg
      exact ⟨c, fun _ => ⟨hc, hgc, ht⟩⟩
    · exact ⟨.container ⟨0⟩, fun hin => absurd hin hg⟩
  choose host hhost using hhost
  exact .intro hx host (fun g hg => ⟨(hhost g hg).1, (hhost g hg).2.1⟩) fun g hg => (hhost g hg).2.2

theorem mono (ht : Tends a h cs) (hcs : ∀ c ∈ cs, ∀ g, c.animator? = some g →
    ∃ c' ∈ cs', c'.animator? = some g ∧ c'.children = c.children) : Tends a h cs' := by
  obtain ⟨x, hx⟩ := ht.live
  refine of_clips hx fun g hg => ?_
  obtain ⟨c, hc, hgc, ht⟩ := ht.clip hx hg
  obtain ⟨c', hc', hgc', hchildren⟩ := hcs c hc g hgc
  exact ⟨c', hc', hgc', hchildren ▸ ht⟩

theorem subset (ht : Tends a h cs) (hcs : cs ⊆ cs') : Tends a h cs' :=
  ht.mono fun c hc _ hg => ⟨c, hcs hc, hg, rfl⟩

theorem of_core (ht : Tends a h cs) (hcore : (cs.map Node.core).Perm (cs'.map Node.core)) :
    Tends a h cs' := by
  refine ht.mono fun c hc g hg => ?_
  obtain ⟨c', hc', he⟩ := List.mem_map.mp (hcore.subset (List.mem_map_of_mem hc))
  refine ⟨c', hc', (Node.animator?_of_core he).trans hg, ?_⟩
  simp only [Node.core, Prod.mk.injEq] at he
  exact he.2.2

/-- Where animators only leave, those left find the nodes that they had. -/
theorem shrink (ht : Tends a h cs) (hf : Forest a'.slots)
    (hsub : ∀ k, Descends a.slots h k → ∀ x y, a.get? k = some x → a'.get? k = some y →
      y.children ⊆ x.children)
    (hlive : ∃ y, a'.get? h = some y) : Tends a' h cs := by
  induction ht with
  | @intro h cs x live host hosted below ih =>
    obtain ⟨y, hy⟩ := hlive
    have hchildren := hsub h .refl x y live hy
    refine of_clips hy fun g hg => ?_
    have hgx := hchildren hg
    obtain ⟨w, hw, -⟩ := hf.back hy hg
    exact ⟨host g, (hosted g hgx).1, (hosted g hgx).2,
      ih g hgx (fun k hd => hsub k (.head ⟨x, live, hgx⟩ hd)) ⟨w, hw⟩⟩

theorem retains (ht : Tends a h cs) (hf : Forest a'.slots) (hr : Retains V a a')
    (hV : ∀ k, Descends a.slots h k → k ∈ V) : Tends a' h cs := by
  obtain ⟨x, hx⟩ := ht.live
  obtain ⟨z, hz, -⟩ := hr h (hV h .refl) x hx
  refine ht.shrink hf (fun k hd w y hw hy => ?_) ⟨z, hz⟩
  obtain ⟨y', hy', -, hsub⟩ := hr k (hV k hd) w hw
  rw [hy] at hy'
  cases hy'
  exact hsub

theorem modify (ht : Tends a h cs) (k : Handle) {f : Animation → Animation}
    (hf : ∀ x, (f x).children = x.children ∧ (f x).parent = x.parent)
    (hforest : Forest (a.modify k f).slots) : Tends (a.modify k f) h cs :=
  ht.retains hforest (.modify Set.univ a k hf) fun _ _ => trivial

theorem retire (ht : Tends a h cs) (hf : Forest (a.retire k).2.slots)
    (hlive : ∃ y, (a.retire k).2.get? h = some y) : Tends (a.retire k).2 h cs := by
  refine ht.shrink hf (fun b _ x y hx hy => ?_) hlive
  obtain ⟨z, hz, hsub, -⟩ := Arena.get?_of_get?_retire hy
  rw [hx] at hz
  cases hz
  exact hsub.subset

/-- The descendants have their nodes below, each under the node of its parent. -/
theorem hosts (ht : Tends a h n.children) (hd : Descends a.slots h k) :
    ∃ d m, At n d m ∧ (k = h ∧ m = n ∨ m.animator? = some k) ∧ Tends a k m.children := by
  induction hd with
  | refl => exact ⟨0, n, .root, .inl ⟨rfl, rfl⟩, ht⟩
  | tail _ hl ih =>
    obtain ⟨d, m, hm, -, htends⟩ := ih
    obtain ⟨x, hx, hc⟩ := hl
    obtain ⟨c, hcm, hgc, htc⟩ := htends.clip hx hc
    exact ⟨d + 1, c, .child hm hcm, .inr hgc, htc⟩

theorem mem_of_descends (ht : Tends a h cs) (hd : Descends a.slots h k) : k ∈ h :: carriedAll cs := by
  induction ht with
  | @intro h cs x live host hosted below ih =>
    rcases hd.cases_head with rfl | ⟨g, ⟨y, hy, hg⟩, hd⟩
    · exact List.mem_cons_self
    · rw [show Arena.lookup a.slots h = some x from live] at hy
      cases hy
      exact List.mem_cons_of_mem _
        (Node.mem_carriedAll_of_clip (hosted g hg).1 (hosted g hg).2 (ih g hg hd))

end Tends

theorem Node.height_lt {n c : Node} (hc : c ∈ n.children) : c.height < n.height := by
  have hall : ∀ cs : List Node, c ∈ cs → c.height < heightAll cs := by
    intro cs hc
    induction cs with
    | nil => cases hc
    | cons b cs ih =>
      rw [heightAll]
      rcases List.mem_cons.mp hc with rfl | hc
      · omega
      · have := ih hc
        omega
  cases n
  exact hall _ hc

/-- An animator with its node: neither it nor a handle that its node carries is one of some others. -/
structure Run.Apart (s : Setting) (before : List (Handle × Timeline)) (V : Set Handle) (h : Handle)
    (x : Animation) (n : Node) (r : Run) : Prop where
  accounted : r.Accounted s before
  family : r.arena.Family
  live : r.arena.get? h = some x
  upward : Upward r.arena V
  outside : h ∉ V
  parent : ∀ p, x.parent = some p → p ∈ V
  holds : r.Holds s before (n.handles ++ [h])
  apart : ∀ k ∈ n.handles, k ∉ V

namespace Run.Apart

variable {s : Setting} {before : List (Handle × Timeline)} {V : Set Handle} {h g : Handle}
  {x y : Animation} {n n' : Node} {r r' : Run}

theorem issued (ha : r.Apart s before V h x n) : h ∈ r.issued s before :=
  ha.holds.issued (List.mem_append_right _ List.mem_cons_self)

theorem handles (ha : r.Apart s before V h x n) : r.Holds s before n.handles :=
  ha.holds.sublist (List.sublist_append_left _ _)

theorem upward_insert (ha : r.Apart s before V h x n) : Upward r.arena (insert h V) :=
  ha.upward.insert ha.live ha.parent

theorem not_mem_insert (ha : r.Apart s before V h x n) (hg : g ∈ n.handles) : g ∉ insert h V := by
  rintro (rfl | hV)
  · exact (List.nodup_append.mp ha.holds.nodup).2.2 g hg g List.mem_cons_self rfl
  · exact ha.apart g hg hV

theorem child_not_mem (ha : r.Apart s before V h x n) (hg : g ∈ x.children) : g ∉ insert h V := by
  obtain ⟨y, hy, hparent, -⟩ := ha.family.wellFormed.forest.back ha.live hg
  have hout : g ∉ V := by
    intro hV
    obtain ⟨z, hz, hpar⟩ := ha.upward g hV
    rw [show r.arena.get? g = some y from hy] at hz
    cases hz
    exact ha.outside (hpar h hparent)
  rintro (rfl | hV)
  · rw [show Arena.lookup r.arena.slots g = some x from ha.live] at hy
    cases hy
    exact ha.outside (ha.parent g hparent)
  · exact hout hV

/-- What has happened to the animator and its node may go on apart from the others. -/
theorem next (ha : r.Apart s before V h x n) (hr : r'.Accounted s before)
    (hspare : r'.Sparing s before) (hcarries : r.Carries s before n.handles r' n'.handles)
    (hsucceeds : Succeeds s before r r') (hfamily : r'.arena.Family)
    (hretains : Retains V r.arena r'.arena) (hlive : ∃ y, r'.arena.get? h = some y) :
    ∃ y, r'.Apart s before V h y n' ∧ y.timeline = x.timeline ∧ y.depth = x.depth := by
  obtain ⟨y, hy⟩ := hlive
  obtain ⟨z, hz, htimeline, hparent, hdepth⟩ := hsucceeds.of_issued hy ha.issued
  rw [ha.live] at hz
  cases hz
  refine ⟨y, ⟨hr, hfamily, hy, ha.upward.retains hretains, ha.outside, hparent ▸ ha.parent,
    (hcarries.append ha.holds).holds, fun k hk hV => ?_⟩, htimeline, hdepth⟩
  rcases hcarries.origin k hk with hk | hnew
  · exact ha.apart k hk hV
  · obtain ⟨w, hw, -⟩ := ha.upward k hV
    exact hnew (ha.accounted.mem_issued (hspare.earlier hcarries.later) hw)

end Run.Apart

end SceneReel
