import Mathlib.Algebra.Ring.GeomSum
import Mathlib.Data.Finset.Card
import Mathlib.Data.List.MinMax
import SceneReel.Proofs.Stage.Crowding
import SceneReel.Proofs.Stage.Mirror

/-!
How far a tree extends. A driven node has no more children than its timeline declares objects, and
nesting ends at the limit, so the size of the tree has a bound that no number of ticks passes.
-/
namespace SceneReel

open Node (At)

namespace Timeline

def declared (t : Timeline) : Finset ObjectId :=
  (t.frames.flatMap fun f => f.known.filterMap Command.placed?).toFinset

theorem mem_declared {t : Timeline} {id : ObjectId} : id ∈ t.declared ↔ t.Declares id := by
  unfold declared Declares
  simp only [List.mem_toFinset, List.mem_flatMap, List.mem_filterMap, Frame.places_iff]

theorem length_le_card_declared {t : Timeline} {ids : List ObjectId} (hnodup : ids.Nodup)
    (hdecl : ∀ id ∈ ids, t.Declares id) : ids.length ≤ t.declared.card := by
  rw [← List.toFinset_card_of_nodup hnodup]
  refine Finset.card_le_card fun id hid => ?_
  exact mem_declared.mpr (hdecl id (List.mem_toFinset.mp hid))

end Timeline

namespace Document

/-- The main timeline and those that clips can play. -/
def allTimelines (d : Document) : List Timeline :=
  d.main.toList ++ d.library.timelines.entries.map Prod.snd

/-- The largest number of objects that one timeline declares. -/
def breadth (d : Document) : Nat :=
  (d.allTimelines.map fun t => t.declared.card).foldr max 0

variable {d : Document} {main t : Timeline} {options : Options}

theorem mem_allTimelines (hm : d.main = some main)
    (ht : Setting.InUse ⟨d.library.resolve, options⟩ main t) : t ∈ d.allTimelines := by
  rw [allTimelines, List.mem_append, hm]
  rcases ht with rfl | ⟨char, hchar⟩
  · exact .inl (by simp)
  · refine .inr (List.mem_map.mpr ⟨(char, t), ?_, rfl⟩)
    have hget : d.library.timelines.get? char = some t := by
      simp only [Library.resolve] at hchar
      cases hs : d.library.shapes.get? char <;> cases hb : d.library.bitmaps.get? char <;>
        cases hx : d.library.texts.get? char <;> simp_all
    obtain ⟨pre, post, hentries, -⟩ := List.lookup_eq_some_iff.mp hget
    rw [hentries]
    simp

theorem card_declared_le (hm : d.main = some main)
    (ht : Setting.InUse ⟨d.library.resolve, options⟩ main t) : t.declared.card ≤ d.breadth :=
  List.le_max_of_le' 0 (List.mem_map_of_mem (mem_allTimelines hm ht)) (Nat.le_refl _)

end Document

namespace Node

mutual

def count : Node → Nat
  | ⟨_, _, _, _, children⟩ => countAll children + 1

def countAll : List Node → Nat
  | [] => 0
  | c :: cs => count c + countAll cs

end

theorem count_eq (n : Node) : n.count = countAll n.children + 1 := by
  cases n
  rfl

theorem countAll_le {b : Nat} {cs : List Node} (h : ∀ c ∈ cs, c.count ≤ b) :
    countAll cs ≤ cs.length * b := by
  induction cs with
  | nil => exact Nat.zero_le _
  | cons c cs ih =>
    have hhead := h c List.mem_cons_self
    have htail := ih fun c hc => h c (List.mem_cons_of_mem _ hc)
    rw [countAll, List.length_cons, Nat.succ_mul]
    omega

end Node

/-- Below a node at a depth there is room for so many levels, each at most so many times wider. -/
theorem Driven.countAll_le {s : Setting} {main : Timeline} {a : Arena} {parent : Option Handle}
    {d : Nat} {h : Handle} {cs : List Node} {p : Nat}
    (hp : ∀ t, s.InUse main t → t.declared.card ≤ p) (hd : Driven s main a parent d h cs) :
    Node.countAll cs + 1 ≤
      ∑ e ∈ Finset.range (s.options.maxNestingDepth + 2 - d), p ^ e := by
  induction hd with
  | @intro parent d h cs x live refers level within inUse lists distinct declared bare clips ih =>
    have hlevels : s.options.maxNestingDepth + 2 - d = s.options.maxNestingDepth + 1 - d + 1 := by
      omega
    have hroom : s.options.maxNestingDepth + 1 - d = s.options.maxNestingDepth - d + 1 := by omega
    have hchild : ∀ c ∈ cs, c.count ≤
        ∑ e ∈ Finset.range (s.options.maxNestingDepth + 1 - d), p ^ e := by
      intro c hc
      rw [Node.count_eq]
      cases hg : c.animator? with
      | none =>
        rw [(bare c hc hg).1, hroom, geom_sum_succ]
        exact Nat.le_add_left _ _
      | some g =>
        have hnext := ih c hc g hg
        rwa [Nat.add_sub_add_right _ 1 d] at hnext
    have hwide : cs.length ≤ p := by
      have hids : ∀ id ∈ cs.map Node.id, x.timeline.Declares id := by
        intro id hid
        obtain ⟨c, hc, rfl⟩ := List.mem_map.mp hid
        exact declared c hc
      have hcard := Timeline.length_le_card_declared distinct hids
      rw [List.length_map] at hcard
      exact hcard.trans (hp _ inUse)
    rw [hlevels, geom_sum_succ]
    have hall := (Node.countAll_le hchild).trans (Nat.mul_le_mul_right _ hwide)
    omega

namespace Stage

/-- What the timelines of a stage say of its tree. -/
structure Declared (s : Stage) : Prop where
  /-- Siblings have ids of their own. -/
  distinct : ∀ {e n}, At s.root e n → n.childIds.Nodup
  /-- The timeline of the animator that drives a node places its children. -/
  declared : ∀ {e n id}, At s.root e n → id ∈ n.childIds →
    ∃ h x, s.Drives h e n ∧ s.animator.arena.get? h = some x ∧ x.timeline.Declares id
  /-- A node that no live animator drives has no children. -/
  bare : ∀ {e n}, At s.root e n → (∀ h, s.Drives h e n → s.animator.arena.isLive h = false) →
    n.children = []

theorem Coherent.declared {main : Timeline} {s : Stage} (hs : s.Coherent main) : s.Declared where
  distinct hn := by
    rcases hs.driven_or_bare hn with ⟨parent, h, -, hd⟩ | hbare
    · obtain ⟨-, -, -, -, -, -, distinct, -, -, -⟩ := hd
      exact distinct
    · rw [Node.childIds, hbare]
      exact List.nodup_nil
  declared hn hid := by
    obtain ⟨c, hc, rfl⟩ := List.mem_map.mp hid
    obtain ⟨parent, h, hdrives, hd⟩ := hs.driven_of_mem hn hc
    obtain ⟨live, -, -, -, -, -, -, declared, -, -⟩ := hd
    exact ⟨h, _, hdrives, live, declared c hc⟩
  bare hn hdead := by
    rcases hs.driven_or_bare hn with ⟨parent, h, hdrives, hd⟩ | hbare
    · obtain ⟨x, hx, -⟩ := hd.get?
      have hlive := Arena.isLive_iff.mpr ⟨x, hx⟩
      rw [hdead h hdrives] at hlive
      cases hlive
    · exact hbare

/-- However long a document plays, siblings keep distinct declared ids, and the tree no more nodes than
fit under the limit. -/
theorem tree_declared_and_bounded {d : Document} {options : Options} {s : Stage}
    (hs : ofDocument d options = .ok s) (n : Nat) (hfit : (s.advance n).animator.arena.Fits) :
    (s.advance n).Declared ∧ (s.advance n).root.count ≤
      ∑ e ∈ Finset.range (options.maxNestingDepth + 2), d.breadth ^ e := by
  obtain ⟨main, hm, hstart⟩ := coherent_ofDocument hs
  have hnow := hstart.advance n hfit
  refine ⟨hnow.declared, ?_⟩
  have hset : s.setting = ⟨d.library.resolve, options⟩ := by
    rw [ofDocument, hm] at hs
    cases hs
    rfl
  have hbound := hnow.tree.driven.countAll_le (p := d.breadth) fun t ht => by
    rw [setting_advance, hset] at ht
    exact Document.card_declared_le hm ht
  rw [setting_advance, hset] at hbound
  rw [Node.count_eq]
  exact hbound

theorem nestedClips_declared_and_bounded :
    ∃ s, ofDocument (nestedClips {}) { maxNestingDepth := 2 } = .ok s ∧
    (s.advance 3).root.count = 3 ∧ (s.advance 3).Declared ∧
    (s.advance 3).root.count ≤ ∑ e ∈ Finset.range 4, (nestedClips {}).breadth ^ e := by
  let s : Stage := start (nestedClips {}).library ⟨[placing ⟨1⟩ ⟨5⟩, {}]⟩ { maxNestingDepth := 2 }
  have hs : ofDocument (nestedClips {}) { maxNestingDepth := 2 } = .ok s := rfl
  refine ⟨s, hs, by decide +kernel, ?_⟩
  exact tree_declared_and_bounded hs 3 (by decide +kernel)

/-- Once the slots have run out, a node may keep the children of an animator that has retired. -/
theorem crowded_not_declared : ∃ s,
    ofDocument (crowding {} [.known secondClip, .known (.remove ⟨2⟩)]) = .ok s ∧
    ¬ (s.advance 1).Declared := by
  obtain ⟨z, c, d, m, hchildren, hdead, hm, hshows, hkept⟩ := crowded_bereft
  refine ⟨_, ofDocument_crowding _ _, fun hdeclared => hkept ?_⟩
  have hc : c ∈ ((crowded {} [.known secondClip, .known (.remove ⟨2⟩)]).advance 1).root.children := by
    rw [hchildren]
    exact List.mem_cons_self
  refine hdeclared.bare (.of_child hc hm) fun h hdrives => ?_
  cases hdrives with
  | clip hn hc' hg =>
    rw [hshows] at hg
    cases hg
    rw [Arena.isLive, hdead]
    rfl

end Stage

end SceneReel
