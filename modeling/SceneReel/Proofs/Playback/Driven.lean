import SceneReel.Proofs.Arena.Retire
import SceneReel.Proofs.Display.Handles
import SceneReel.Proofs.Playback.Arrange

/-!
The link between the tree and the arena: an animator drives a node, and each animator below drives the
node that carries it. The link says on both sides the same: who lists whom, and how deep it stands.
-/
namespace SceneReel

open Node (hosted carriedAll)

/-- The timeline is the main one, or some character resolves to it. -/
def Setting.InUse (s : Setting) (main t : Timeline) : Prop :=
  t = main ∨ ∃ char, s.resolve char = some (.timeline t)

def Timeline.Declares (t : Timeline) (id : ObjectId) : Prop :=
  ∃ f ∈ t.frames, f.places id = true

/-- An animator drives a node with the given children, and each one below drives the node that carries
it. -/
inductive Driven (s : Setting) (main : Timeline) (a : Arena) :
    Option Handle → Nat → Handle → List Node → Prop
  | intro {parent : Option Handle} {d : Nat} {h : Handle} {cs : List Node} {x : Animation}
      (live : a.get? h = some x) (refers : x.parent = parent) (level : x.depth = d)
      (within : d ≤ s.options.maxNestingDepth) (inUse : s.InUse main x.timeline)
      (lists : x.children.Perm (hosted cs)) (distinct : (cs.map Node.id).Nodup)
      (declared : ∀ c ∈ cs, x.timeline.Declares c.id)
      (bare : ∀ c ∈ cs, c.animator? = none →
        c.children = [] ∧ ∀ char, c.kind = .clip char none → d = s.options.maxNestingDepth)
      (clips : ∀ c ∈ cs, ∀ g, c.animator? = some g →
        Driven s main a (some h) (d + 1) g c.children) :
      Driven s main a parent d h cs

namespace Driven

variable {s : Setting} {main : Timeline} {a a' : Arena} {parent : Option Handle} {d : Nat}
  {g h k : Handle} {cs cs' : List Node} {x : Animation}

theorem get? (hd : Driven s main a parent d h cs) :
    ∃ x, a.get? h = some x ∧ x.parent = parent ∧ x.depth = d := by
  obtain ⟨live, refers, level, -, -, -, -, -, -, -⟩ := hd
  exact ⟨_, live, refers, level⟩

/-- The driving animator lists what the children host. -/
theorem perm_hosted (hd : Driven s main a parent d h cs) (hx : a.get? h = some x) :
    x.children.Perm (hosted cs) := by
  obtain ⟨live, -, -, -, -, lists, -, -, -, -⟩ := hd
  rw [live] at hx
  cases hx
  exact lists

theorem congr (hd : Driven s main a parent d h cs)
    (hagree : ∀ g ∈ h :: carriedAll cs, a'.get? g = a.get? g) :
    Driven s main a' parent d h cs := by
  induction hd with
  | intro live refers level within inUse lists distinct declared bare _ ih =>
    refine .intro ((hagree _ List.mem_cons_self).trans live) refers level within inUse lists
      distinct declared bare fun c hc g hg => ih c hc g hg fun k hk => hagree k ?_
    exact List.mem_cons_of_mem _ (Node.mem_carriedAll_of_clip hc hg hk)

/-- Who is carried below a node is carried by a child or below it, and the child is driven. -/
theorem mem_carriedAll (hd : Driven s main a parent d h cs) (hk : k ∈ carriedAll cs) :
    ∃ c ∈ cs, ∃ g, c.animator? = some g ∧ k ∈ g :: carriedAll c.children ∧
      Driven s main a (some h) (d + 1) g c.children := by
  obtain ⟨-, -, -, -, -, -, -, -, bare, clips⟩ := hd
  obtain ⟨c, hc, hk⟩ := Node.mem_carriedAll.mp hk
  cases hg : c.animator? with
  | none =>
    rw [Node.carried_eq, hg, Node.handles, (bare c hc hg).1] at hk
    cases hk
  | some g =>
    refine ⟨c, hc, g, hg, ?_, clips c hc g hg⟩
    rw [Node.carried_eq, hg] at hk
    exact hk

theorem live_of_mem (hd : Driven s main a parent d h cs) (hk : k ∈ h :: carriedAll cs) :
    ∃ x, a.get? k = some x := by
  induction hd with
  | intro live refers level within inUse lists distinct declared bare clips ih =>
    rcases List.mem_cons.mp hk with rfl | hk
    · exact ⟨_, live⟩
    · obtain ⟨c, hc, g, hg, hk, -⟩ := mem_carriedAll
        (.intro live refers level within inUse lists distinct declared bare clips) hk
      exact ih c hc g hg hk

theorem mem_of_lists (hd : Driven s main a parent d h cs) (hg : g ∈ h :: carriedAll cs)
    (hl : Arena.Lists a.slots g k) : k ∈ carriedAll cs := by
  induction hd with
  | @intro parent d h cs x live refers level within inUse lists distinct declared bare clips ih =>
    rcases List.mem_cons.mp hg with rfl | hg
    · obtain ⟨y, hy, hk⟩ := hl
      rw [show Arena.lookup a.slots g = some x from live] at hy
      cases hy
      exact (Node.hosted_sublist_carriedAll cs).subset (lists.subset hk)
    · obtain ⟨c, hc, b, hb, hg, -⟩ := mem_carriedAll
        (.intro live refers level within inUse lists distinct declared bare clips) hg
      have hk := ih c hc b hb hg
      exact Node.mem_carriedAll.mpr ⟨c, hc, Node.mem_carried.mpr (.inr hk)⟩

/-- The descendants of the driving animator are those carried below its node. -/
theorem descends_iff (hd : Driven s main a parent d h cs) :
    Arena.Descends a.slots h k ↔ k ∈ h :: carriedAll cs := by
  constructor
  · intro hdesc
    induction hdesc with
    | refl => exact List.mem_cons_self
    | tail _ hl ih => exact List.mem_cons_of_mem _ (hd.mem_of_lists ih hl)
  · intro hk
    induction hd with
    | @intro parent d h cs x live refers level within inUse lists distinct declared bare clips ih =>
      rcases List.mem_cons.mp hk with rfl | hk
      · exact .refl
      · obtain ⟨c, hc, g, hg, hk, -⟩ := mem_carriedAll
          (.intro live refers level within inUse lists distinct declared bare clips) hk
        exact .head ⟨x, live, lists.symm.subset (Node.mem_hosted.mpr ⟨c, hc, hg⟩)⟩ (ih c hc g hg hk)

theorem of_core (hd : Driven s main a parent d h cs)
    (hcore : (cs.map Node.core).Perm (cs'.map Node.core)) : Driven s main a parent d h cs' := by
  obtain ⟨live, refers, level, within, inUse, lists, distinct, declared, bare, clips⟩ := hd
  have hfrom : ∀ c' ∈ cs', ∃ c ∈ cs, c.core = c'.core := fun c' hc' =>
    List.mem_map.mp (hcore.symm.subset (List.mem_map_of_mem hc'))
  refine .intro live refers level within inUse (lists.trans (Node.hosted_perm_of_core hcore)) ?_
    (fun c' hc' => ?_) (fun c' hc' hg => ?_) (fun c' hc' g hg => ?_)
  · have hids := hcore.map Prod.fst
    rw [List.map_map, List.map_map] at hids
    exact hids.nodup_iff.mp distinct
  · obtain ⟨c, hc, he⟩ := hfrom c' hc'
    simp only [Node.core, Prod.mk.injEq] at he
    exact he.1 ▸ declared c hc
  · obtain ⟨c, hc, he⟩ := hfrom c' hc'
    have hb := bare c hc ((Node.animator?_of_core he).trans hg)
    simp only [Node.core, Prod.mk.injEq] at he
    exact he.2.1 ▸ he.2.2 ▸ hb
  · obtain ⟨c, hc, he⟩ := hfrom c' hc'
    have hb := clips c hc g ((Node.animator?_of_core he).trans hg)
    simp only [Node.core, Prod.mk.injEq] at he
    exact he.2.2 ▸ hb

end Driven

end SceneReel
