import Mathlib.Data.List.Permutation
import SceneReel.Proofs.Arena.Family
import SceneReel.Proofs.Arena.Generations

/-!
Every sequence of operations on an arena. The forest, the free list and the numbering of the handles are
kept by each operation, so they hold after all of them.
-/
namespace SceneReel.Arena

variable {a b c : Arena} {issued given later : List Handle} {h : Handle}

/-- An operation on an arena, with the handle that it gives out. -/
inductive Step : Arena → Option Handle → Arena → Prop
  | root (a : Arena) (t : Timeline) : Step a (some (a.alloc t none 0).1) (a.alloc t none 0).2
  | spawn {a : Arena} {owner : Handle} {x : Animation} (t : Timeline) :
    a.get? owner = some x →
    Step a (some (a.spawn t owner (x.depth + 1)).1) (a.spawn t owner (x.depth + 1)).2
  | retire (a : Arena) (h : Handle) : Step a none (a.retire h).2

inductive Steps : Arena → List Handle → Arena → Prop
  | refl (a : Arena) : Steps a [] a
  | tail {a b c : Arena} {given : List Handle} {h? : Option Handle} :
    Steps a given b → Step b h? c → Steps a (given ++ h?.toList) c

theorem Step.size_le {h? : Option Handle} (hs : Step a h? b) : a.slots.size ≤ b.slots.size := by
  cases hs with
  | root t => exact size_le_size_alloc a t none 0
  | spawn t _ => exact size_le_size_spawn a t _ _
  | retire h => exact (size_retire a h).ge

/-- What the operations keep: a forest without orphans, a right free list, and handles in order. -/
structure Sound (a : Arena) (issued : List Handle) : Prop where
  wellFormed : a.WellFormed
  listed : a.Listed
  numbered : a.Numbered issued

theorem Sound.empty : Sound {} [] := by
  refine ⟨.empty, fun g y p hy => ?_, fun _ => rfl, fun _ => by simp [generationsOf]⟩
  simp [get?, lookup] at hy

theorem WellFormed.alloc (hw : a.WellFormed) {t : Timeline} {p : Option Handle} {d : Nat}
    (hfit : (a.alloc t p d).2.Fits) : (a.alloc t p d).2.WellFormed := by
  obtain ⟨hfresh, hget⟩ := hw.stored.get?_alloc hfit
  have hlook : ∀ k, lookup (a.alloc t p d).2.slots k = _ := hget
  refine ⟨hw.stored.alloc t p d, fun {q y} hy => ?_, fun {q y c} hy hc => ?_⟩
  · rw [hlook] at hy
    split at hy
    · cases hy
      exact List.nodup_nil
    · exact hw.forest.nodup hy
  · rw [hlook] at hy
    split at hy
    · cases hy
      cases hc
    · obtain ⟨z, hz, hback⟩ := hw.forest.back hy hc
      have hne : c ≠ (a.alloc t p d).1 := by
        rintro rfl
        rw [show lookup a.slots _ = none from hfresh] at hz
        cases hz
      exact ⟨z, by rw [hlook, if_neg hne]; exact hz, hback⟩

/-- A new root is no orphan, and nobody else becomes one. -/
theorem Listed.root (hl : a.Listed) (hs : a.Stored) {t : Timeline} {d : Nat}
    (hfit : (a.alloc t none d).2.Fits) : (a.alloc t none d).2.Listed := by
  intro g y p hy hp
  obtain ⟨hfresh, hget⟩ := hs.get?_alloc hfit
  rw [hget] at hy
  split at hy
  · cases hy
    cases hp
  · obtain ⟨z, hz, hc⟩ := hl hy hp
    have hne : p ≠ (a.alloc t none d).1 := by
      rintro rfl
      rw [show lookup a.slots _ = none from hfresh] at hz
      cases hz
    have hlook : lookup (a.alloc t none d).2.slots p = _ := hget p
    rw [if_neg hne] at hlook
    exact ⟨z, hlook.trans hz, hc⟩

theorem Sound.step (ha : a.Sound issued) {h? : Option Handle} (hs : Step a h? b) (hfit : b.Fits) :
    b.Sound (issued ++ h?.toList) := by
  obtain ⟨hw, hl, hn⟩ := ha
  cases hs with
  | root t => exact ⟨hw.alloc hfit, hl.root hw.stored hfit, hn.alloc hw.stored hfit⟩
  | spawn t ho => exact ⟨hw.spawn ho hfit, hl.spawn hw ho hfit, hn.spawn hw.stored hfit⟩
  | retire h =>
    rw [Option.toList_none, List.append_nil]
    exact ⟨hw.retire h, hl.retire hw h, hn.congr (generations_retire a h)⟩

theorem Sound.steps (ha : a.Sound issued) (hs : Steps a given b) (hfit : b.Fits) :
    b.Sound (issued ++ given) := by
  induction hs with
  | refl =>
    rw [List.append_nil]
    exact ha
  | tail _ hstep ih =>
    rw [← List.append_assoc]
    exact (ih (Nat.le_trans hstep.size_le hfit)).step hstep hfit

theorem Sound.live_of_step (ha : a.Sound issued) {h? : Option Handle} (hs : Step a h? b)
    (hfit : b.Fits) (hlive : b.isLive h) : a.isLive h ∨ h ∈ h?.toList := by
  obtain ⟨y, hy⟩ := isLive_iff.mp hlive
  cases hs with
  | root t =>
    rw [(ha.wellFormed.stored.get?_alloc hfit).2] at hy
    split at hy
    · exact .inr (by simpa using ‹h = _›)
    · exact .inl (isLive_iff.mpr ⟨y, hy⟩)
  | spawn t ho =>
    rcases ha.wellFormed.stored.get?_of_get?_spawn hfit hy with ⟨he, -⟩ | ⟨x, hx, -⟩
    · exact .inr (by simpa using he)
    · exact .inl (isLive_iff.mpr ⟨x, hx⟩)
  | retire g =>
    obtain ⟨x, hx, -⟩ := get?_of_get?_retire hy
    exact .inl (isLive_iff.mpr ⟨x, hx⟩)

theorem Sound.live_of_steps (ha : a.Sound issued) (hs : Steps a given b) (hfit : b.Fits)
    (hlive : b.isLive h) : a.isLive h ∨ h ∈ given := by
  induction hs with
  | refl => exact .inl hlive
  | @tail b c given h? hs hstep ih =>
    have hfit' : b.Fits := Nat.le_trans hstep.size_le hfit
    rcases (ha.steps hs hfit').live_of_step hstep hfit hlive with hlive | hmem
    · exact (ih hfit' hlive).imp_right (List.mem_append_left _)
    · exact .inr (List.mem_append_right _ hmem)

theorem Stored.exists_mem_free_iff (hs : a.Stored) (hfit : a.Fits) (n : Nat) :
    (∃ i ∈ a.free, i.toNat = n) ↔ ∃ g, a.slots[n]? = some ⟨g, none⟩ := by
  constructor
  · rintro ⟨i, hi, rfl⟩
    exact (hs.mem_free_iff i).mp hi
  · rintro ⟨g, hg⟩
    have hn : n < UInt32.size :=
      Nat.lt_of_lt_of_le (Array.getElem?_eq_some_iff.mp hg).1 hfit
    have hi : (UInt32.ofNat n).toNat = n := UInt32.toNat_ofNat_of_lt' hn
    exact ⟨UInt32.ofNat n, (hs.mem_free_iff _).mpr ⟨g, hi.symm ▸ hg⟩, hi⟩

theorem Stored.all_live (hs : a.Stored) (hfit : a.Fits) (hfree : a.free = []) :
    ∀ slot ∈ a.slots, slot.isLive := by
  intro slot hslot
  obtain ⟨n, hn⟩ := Array.mem_iff_getElem?.mp hslot
  obtain ⟨g, x?⟩ := slot
  cases x? with
  | some x => rfl
  | none =>
    obtain ⟨i, hi, -⟩ := (hs.exists_mem_free_iff hfit n).mpr ⟨g, hn⟩
    rw [hfree] at hi
    cases hi

/-- The slots grow only when every slot is live. -/
theorem Step.all_live_of_lt {h? : Option Handle} (hs : Step a h? b) (hstored : a.Stored)
    (hfit : a.Fits) (hlt : a.slots.size < b.slots.size) : ∀ slot ∈ a.slots, slot.isLive := by
  have hgrow : ∀ t p d, a.slots.size < (a.alloc t p d).2.slots.size → a.free = [] := by
    intro t p d hlt
    cases hf : a.free with
    | nil => rfl
    | cons i free =>
      rw [alloc_of_free_cons hf, size_store] at hlt
      exact absurd hlt (Nat.lt_irrefl _)
  apply hstored.all_live hfit
  cases hs with
  | root t => exact hgrow t none 0 hlt
  | spawn t _ => exact hgrow t _ _ (by simpa [Arena.spawn] using hlt)
  | retire h =>
    rw [size_retire] at hlt
    exact absurd hlt (Nat.lt_irrefl _)

/-- Every slot has an index of its own, and none has given out more handles than it has generations. -/
def Roomy (a : Arena) (issued : List Handle) : Prop :=
  a.Fits ∧ ∀ i, issued.countP (·.index = i) ≤ UInt32.size

theorem Roomy.of_length (hfit : a.Fits) (hlength : issued.length ≤ UInt32.size) : a.Roomy issued :=
  ⟨hfit, fun _ => Nat.le_trans List.countP_le_length hlength⟩

/-- A handle that was given out and is not live stays so, and is not given out again. -/
theorem Sound.never_again (ha : a.Sound issued) (hissued : h ∈ issued) (hdead : a.isLive h = false)
    (hs : Steps a given b) (hroom : b.Roomy (issued ++ given)) :
    b.isLive h = false ∧ h ∉ given := by
  have hnodup : (issued ++ given).Nodup := (ha.steps hs hroom.1).numbered.nodup hroom.2
  have hgiven : h ∉ given := fun hmem => (List.nodup_append.mp hnodup).2.2 h hissued h hmem rfl
  refine ⟨?_, hgiven⟩
  by_contra hlive
  rcases ha.live_of_steps hs hroom.1 (Bool.not_eq_false _ ▸ hlive) with hbefore | hmem
  · rw [hdead] at hbefore
    cases hbefore
  · exact hgiven hmem

/-- Whatever operations follow on the empty arena, it is a forest with a right free list, and no retired
handle comes back. -/
theorem Steps.keep_forest_and_free_list (hs : Steps {} issued a) (hroom : a.Roomy issued) :
    (a.free.Nodup ∧ ∀ n, (∃ i ∈ a.free, i.toNat = n) ↔ ∃ g, a.slots[n]? = some ⟨g, none⟩) ∧
    (∀ h? b, Step a h? b → a.slots.size < b.slots.size → ∀ slot ∈ a.slots, slot.isLive) ∧
    (∀ h x, a.get? h = some x → x.children.Nodup ∧
      ∀ c ∈ x.children, ∃ y, a.get? c = some y ∧ y.parent = some h ∧ y.depth = x.depth + 1) ∧
    (∀ h x p, a.get? h = some x → x.parent = some p → ∃ y, a.get? p = some y ∧ h ∈ y.children) ∧
    (∀ h, (a.retire h).2.isLive h = false ∧
      ∀ k, a.isLive k → (a.retire h).2.isLive k = false →
        ∀ given b, Steps (a.retire h).2 given b → b.Roomy (issued ++ given) →
          b.isLive k = false ∧ k ∉ given) := by
  have ha : a.Sound issued := Sound.empty.steps hs hroom.1
  have hstored := ha.wellFormed.stored
  refine ⟨⟨hstored.nodup, hstored.exists_mem_free_iff hroom.1⟩,
    fun h? b hstep => hstep.all_live_of_lt hstored hroom.1,
    fun h x hx => ⟨ha.wellFormed.forest.nodup hx, fun c hc => ha.wellFormed.forest.back hx hc⟩,
    fun h x p hx hp => ha.listed hx hp, fun h => ⟨?_, fun k hlive hdead given b hlater hroom' => ?_⟩⟩
  · simp [isLive, get?_retire_self _ h]
  · obtain ⟨x, hx⟩ := isLive_iff.mp hlive
    have hretired : (a.retire h).2.Sound issued := by
      have hfit : (a.retire h).2.Fits := by
        rw [Fits, size_retire]
        exact hroom.1
      simpa using ha.step (.retire a h) hfit
    exact hretired.never_again (ha.numbered.mem_of_live hx) hdead hlater hroom'

def pruned : Arena :=
  let (root, a) := alloc {} {} none 0
  let (clip, a) := a.spawn {} root 1
  let (_, a) := a.spawn {} clip 2
  (a.retire clip).2

/-- The root has a clip again, in the slot that was freed last; the other slot is free. -/
theorem pruned_keeps_forest_and_free_list :
    Steps {} [⟨0, 0⟩, ⟨1, 0⟩, ⟨2, 0⟩, ⟨2, 1⟩] (pruned.spawn {} ⟨0, 0⟩ 1).2 ∧
      (pruned.spawn {} ⟨0, 0⟩ 1).2.Roomy [⟨0, 0⟩, ⟨1, 0⟩, ⟨2, 0⟩, ⟨2, 1⟩] ∧
      (pruned.spawn {} ⟨0, 0⟩ 1).2.free = [1] ∧
      (∃ g, (pruned.spawn {} ⟨0, 0⟩ 1).2.slots[1]? = some ⟨g, none⟩) ∧
      ∀ given b, Steps ((pruned.spawn {} ⟨0, 0⟩ 1).2.retire ⟨0, 0⟩).2 given b →
        b.Roomy ([⟨0, 0⟩, ⟨1, 0⟩, ⟨2, 0⟩, ⟨2, 1⟩] ++ given) →
        b.isLive ⟨2, 1⟩ = false ∧ ⟨2, 1⟩ ∉ given := by
  have hclip : Steps {} [⟨0, 0⟩, ⟨1, 0⟩] _ :=
    ((Steps.refl {}).tail (.root {} {})).tail (@Step.spawn _ ⟨0, 0⟩ { timeline := {} } {} rfl)
  have hinner : Steps {} [⟨0, 0⟩, ⟨1, 0⟩, ⟨2, 0⟩] _ := hclip.tail
    (@Step.spawn _ ⟨1, 0⟩ { timeline := {}, parent := some ⟨0, 0⟩, depth := 1 } {} rfl)
  have hpruned : Steps {} [⟨0, 0⟩, ⟨1, 0⟩, ⟨2, 0⟩] pruned := hinner.tail (.retire _ ⟨1, 0⟩)
  obtain ⟨root, hroot, hdepth⟩ := Option.map_eq_some_iff.mp
    (show (pruned.get? ⟨0, 0⟩).map Animation.depth = some 0 by cbv)
  have hgiven : (pruned.spawn {} ⟨0, 0⟩ 1).1 = ⟨2, 1⟩ := by cbv
  have hstep : Step pruned (some ⟨2, 1⟩) (pruned.spawn {} ⟨0, 0⟩ 1).2 := by
    have hspawn := Step.spawn {} hroot
    rwa [hdepth, hgiven] at hspawn
  have hsteps := hpruned.tail hstep
  have hfit : (pruned.spawn {} ⟨0, 0⟩ 1).2.Fits := by cbv
  have hfree : (pruned.spawn {} ⟨0, 0⟩ 1).2.free = [1] := by cbv
  have hlive : (pruned.spawn {} ⟨0, 0⟩ 1).2.isLive ⟨2, 1⟩ := by cbv
  have hdead : ((pruned.spawn {} ⟨0, 0⟩ 1).2.retire ⟨0, 0⟩).2.isLive ⟨2, 1⟩ = false := by cbv
  have hroom : Roomy _ [⟨0, 0⟩, ⟨1, 0⟩, ⟨2, 0⟩, ⟨2, 1⟩] := .of_length hfit (by decide)
  obtain ⟨⟨-, hslots⟩, -, -, -, hnever⟩ := Steps.keep_forest_and_free_list hsteps hroom
  refine ⟨hsteps, hroom, hfree, (hslots 1).mp ⟨1, by simp [hfree], rfl⟩, ?_⟩
  exact (hnever ⟨0, 0⟩).2 ⟨2, 1⟩ hlive hdead

end SceneReel.Arena
