import SceneReel.Proofs.Stage.Run

/-!
The arena of a stage mirrors its tree: the live animators are the root animator and those that clips
carry, and each knows as parent and children those of the nodes above and below its own.
-/
namespace SceneReel.Stage

open Node (At carriedAll)

/-- An animator drives a node that is a given number of steps below the root. -/
inductive Drives (s : Stage) : Handle → Nat → Node → Prop
  | root : Drives s s.animator.root 0 s.root
  | clip {d : Nat} {n c : Node} {g : Handle} (hn : At s.root d n) (hc : c ∈ n.children)
      (hg : c.animator? = some g) : Drives s g (d + 1) c

/-- What the arena and the tree of a stage say of each other. -/
structure Mirrors (s : Stage) : Prop where
  /-- No animator is carried twice, and none of them is the root. -/
  nodup : (s.animator.root :: s.root.handles).Nodup
  /-- Live are the root and the animators that the tree carries. -/
  live_iff : ∀ h, s.animator.arena.isLive h = true ↔ h = s.animator.root ∨ h ∈ s.root.handles
  /-- Each live animator drives a node. -/
  drives : ∀ {h}, s.animator.arena.isLive h = true → ∃ d n, s.Drives h d n
  /-- The animator that a node hosts refers to the one that drives the node above, and its depth is
  that of the node. -/
  refers : ∀ {d n c g}, At s.root d n → c ∈ n.children → c.animator? = some g →
    ∃ h x, s.Drives h d n ∧ s.animator.arena.get? g = some x ∧ x.parent = some h ∧ x.depth = d + 1
  /-- An animator lists what the children of its node host, each once. -/
  lists : ∀ {h d n x}, s.Drives h d n → s.animator.arena.get? h = some x →
    x.children.Nodup ∧ ∀ g, g ∈ x.children ↔ ∃ c ∈ n.children, c.animator? = some g

namespace Coherent

variable {main : Timeline} {s : Stage} {d : Nat} {h k : Handle} {n : Node}

theorem driven_or_bare (hs : s.Coherent main) (hn : At s.root d n) :
    (∃ parent h, s.Drives h d n ∧
      Driven s.setting main s.animator.arena parent d h n.children) ∨
    n.children = [] := by
  induction hn with
  | root => exact .inl ⟨none, _, .root, hs.tree.driven⟩
  | @child m c d hm hc ih =>
    rcases ih with ⟨parent, h, -, hd⟩ | hbare
    · obtain ⟨-, -, -, -, -, -, -, -, bare, clips⟩ := hd
      cases hg : c.animator? with
      | none => exact .inr (bare c hc hg).1
      | some g => exact .inl ⟨some h, g, .clip hm hc hg, clips c hc g hg⟩
    · rw [hbare] at hc
      cases hc

theorem driven_of_mem (hs : s.Coherent main) (hn : At s.root d n) {c : Node}
    (hc : c ∈ n.children) : ∃ parent h, s.Drives h d n ∧
      Driven s.setting main s.animator.arena parent d h n.children := by
  rcases hs.driven_or_bare hn with hd | hbare
  · exact hd
  · rw [hbare] at hc
    cases hc

theorem driven_of_drives (hs : s.Coherent main) (hd : s.Drives h d n) :
    ∃ parent, Driven s.setting main s.animator.arena parent d h n.children := by
  cases hd with
  | root => exact ⟨none, hs.tree.driven⟩
  | clip hm hc hg =>
    obtain ⟨parent, k, -, hk⟩ := hs.driven_of_mem hm hc
    obtain ⟨-, -, -, -, -, -, -, -, -, clips⟩ := hk
    exact ⟨some k, clips _ hc _ hg⟩

theorem exists_drives {a : Arena} {parent : Option Handle} {cs : List Node}
    (hd : Driven s.setting main a parent d h cs) (hn : At s.root d n) (hcs : n.children = cs)
    (hdrives : s.Drives h d n) (hk : k ∈ h :: carriedAll cs) : ∃ e m, s.Drives k e m := by
  induction hd generalizing n with
  | intro live refers level within inUse lists distinct declared bare clips ih =>
    rcases List.mem_cons.mp hk with rfl | hk
    · exact ⟨_, n, hdrives⟩
    · obtain ⟨c, hc, g, hg, hk, -⟩ := Driven.mem_carriedAll
        (.intro live refers level within inUse lists distinct declared bare clips) hk
      have hc' : c ∈ n.children := hcs ▸ hc
      exact ih c hc g hg (hn.child hc') rfl (.clip hn hc' hg) hk

theorem mirrors (hs : s.Coherent main) : s.Mirrors where
  nodup := hs.tree.nodup
  live_iff h := by
    rw [Arena.isLive_iff]
    constructor
    · rintro ⟨x, hx⟩
      exact List.mem_cons.mp (hs.all hx)
    · exact fun hh => hs.tree.driven.live_of_mem (List.mem_cons.mpr hh)
  drives hlive := by
    obtain ⟨x, hx⟩ := Arena.isLive_iff.mp hlive
    exact exists_drives hs.tree.driven .root rfl .root (hs.all hx)
  refers hn hc hg := by
    obtain ⟨parent, h, hdrives, hd⟩ := hs.driven_of_mem hn hc
    obtain ⟨-, -, -, -, -, -, -, -, -, clips⟩ := hd
    obtain ⟨x, hx, hparent, hdepth⟩ := (clips _ hc _ hg).get?
    exact ⟨h, x, hdrives, hx, hparent, hdepth⟩
  lists hdrives hx := by
    obtain ⟨parent, hd⟩ := hs.driven_of_drives hdrives
    refine ⟨hs.tree.wellFormed.forest.nodup hx, fun g => ?_⟩
    rw [(hd.perm_hosted hx).mem_iff, Node.mem_hosted]

end Coherent

theorem coherent_ofDocument {d : Document} {options : Options} {s : Stage}
    (hs : ofDocument d options = .ok s) : ∃ main, d.main = some main ∧ s.Coherent main := by
  unfold ofDocument at hs
  cases hm : d.main with
  | none =>
    rw [hm] at hs
    cases hs
  | some main =>
    rw [hm] at hs
    cases hs
    exact ⟨main, rfl, coherent_start d.library main options⟩

/-- However long a document plays, the arena mirrors the tree, and no animator is retired for having lost
its node. -/
theorem arena_mirrors_tree {d : Document} {options : Options} {s : Stage}
    (hs : ofDocument d options = .ok s) (n : Nat) (hfit : (s.advance n).animator.arena.Fits) :
    (s.advance n).Mirrors ∧
      ∀ h slots, Event.retire h slots .detached ∉ (s.record n #[]).2 := by
  obtain ⟨main, -, hstart⟩ := coherent_ofDocument hs
  refine ⟨(hstart.advance n hfit).mirrors, fun h slots hin => ?_⟩
  rcases mem_record.mp hin with hin | ⟨k, hk, hin⟩
  · exact absurd hin (Array.not_mem_empty _)
  · have hnext := fits_of_fits hfit hk
    rw [advance_succ] at hnext
    have hnow := hstart.advance k (fits_of_fits hfit (Nat.le_of_lt hk))
    exact (hnow.tick hnext).2 h slots hin

def placing (char : CharId) (object : ObjectId) : Frame :=
  ⟨[.known (.place char object none .identity)]⟩

/-- A document with a clip in a clip, beside the assets of a library. -/
def nestedClips (l : Library) : Document where
  library := { l with timelines :=
    (l.timelines.insert ⟨2⟩ ⟨[{}]⟩).insert ⟨1⟩ ⟨[placing ⟨2⟩ ⟨7⟩, {}]⟩ }
  main := some ⟨[placing ⟨1⟩ ⟨5⟩, {}]⟩

theorem arena_mirrors_nestedClips : ∃ s, ofDocument (nestedClips {}) = .ok s ∧
    (s.advance 3).root.handles = [⟨1, 0⟩, ⟨2, 0⟩] ∧ (s.advance 3).Mirrors ∧
    ∀ h slots, Event.retire h slots .detached ∉ (s.record 3 #[]).2 := by
  let s : Stage := start (nestedClips {}).library ⟨[placing ⟨1⟩ ⟨5⟩, {}]⟩
  have hs : ofDocument (nestedClips {}) = .ok s := rfl
  refine ⟨s, hs, by decide +kernel, ?_⟩
  exact arena_mirrors_tree hs 3 (by decide +kernel)

end SceneReel.Stage
