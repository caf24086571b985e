import SceneReel.Proofs.Playback.PeakPlay
import SceneReel.Proofs.Stage.Crowding
import SceneReel.Proofs.Stage.Mirror

/-!
A nested clip plays as a stage of its own. Both show the scene of their timeline, whose age for the clip
is counted from the tick that spawned its animator.
-/
namespace SceneReel.Stage

open Node (At carriedAll eraseAll)

/-- A tick spawns an animator; the first tick has the number zero. -/
def Spawns (s : Stage) (k : Nat) (g : Handle) : Prop :=
  ∃ parent object char, Event.spawn parent g object char ∈ (s.advance k).tick.2

/-- After so many ticks, a tick that was so many ago spawned an animator, and no tick since did. -/
def SpawnedAgo (s : Stage) (n j : Nat) (g : Handle) : Prop :=
  ∃ k < n, k + j = n ∧ s.Spawns k g ∧ ∀ i, k < i → i < n → ¬ s.Spawns i g

/-- The tick that spawned an animator last, before a tick; `β` says it for those spawned by none. -/
def bornAt (s : Stage) (β : Handle → Nat) : Nat → Handle → Nat
  | 0 => β
  | n + 1 => (s.advance n).played.2.births (bornAt s β n) n

variable {s : Stage} {β : Handle → Nat} {d n : Nat} {g h : Handle} {m c : Node}

theorem mem_spawned_played {k : Nat} :
    g ∈ (s.advance k).played.2.spawned ↔ s.Spawns k g := by
  rw [Run.mem_spawned, Spawns, tick_eq]
  simp only [Array.mem_toList_iff]

theorem bornAt_cases (s : Stage) (β : Handle → Nat) (n : Nat) (g : Handle) :
    (∃ k < n, s.Spawns k g ∧ (∀ i, k < i → i < n → ¬ s.Spawns i g) ∧ s.bornAt β n g = k) ∨
      (∀ i < n, ¬ s.Spawns i g) ∧ s.bornAt β n g = β g := by
  induction n with
  | zero => exact .inr ⟨fun i hi => absurd hi (Nat.not_lt_zero i), rfl⟩
  | succ n ih =>
    rw [bornAt, Run.births]
    by_cases hn : s.Spawns n g
    · rw [if_pos (mem_spawned_played.mpr hn)]
      exact .inl ⟨n, Nat.lt_succ_self n, hn, fun i hi hi' => by omega, rfl⟩
    · rw [if_neg fun hin => hn (mem_spawned_played.mp hin)]
      rcases ih with ⟨k, hk, hspawns, hlast, hborn⟩ | ⟨hnever, hborn⟩
      · refine .inl ⟨k, Nat.lt_succ_of_lt hk, hspawns, fun i hi hi' => ?_, hborn⟩
        rcases Nat.lt_succ_iff_lt_or_eq.mp hi' with hi' | rfl
        · exact hlast i hi hi'
        · exact hn
      · refine .inr ⟨fun i hi => ?_, hborn⟩
        rcases Nat.lt_succ_iff_lt_or_eq.mp hi with hi | rfl
        · exact hnever i hi
        · exact hn

theorem animator?_root_advance {library : Library} {main : Timeline} {options : Options}
    (hs : s = start library main options) (n : Nat) : (s.advance n).root.animator? = none := by
  rw [Node.animator?, kind_root_advance hs n]

/-- After so many ticks a stage shows the scene of its main timeline after so many ticks. -/
theorem shows_advance {library : Library} {main : Timeline} {options : Options}
    (β : Handle → Nat) (hs : s = start library main options) (hβ : β s.animator.root = 0) (n : Nat)
    (hfit : (s.advance n).animator.arena.Fits) :
    Shows library.resolve (s.advance n).animator.arena (s.bornAt β n) n options.maxNestingDepth main n
      (s.advance n).animator.root (s.advance n).root.children := by
  have hstart : s.Coherent main := hs ▸ coherent_start library main options
  have hset : s.setting = ⟨library.resolve, options⟩ := by
    rw [hs]
    rfl
  induction n with
  | zero =>
    have hroom : (Arena.alloc {} main none 0).2.Fits := by
      rw [hs] at hfit
      exact hfit
    obtain ⟨-, hget⟩ := Arena.Stored.empty.get?_alloc hroom
    rw [shows_iff]
    subst hs
    refine ⟨⟨{ timeline := main }, ?_, rfl, rfl, .nil⟩, ?_, .nil⟩
    · exact (hget _).trans (if_pos rfl)
    · exact hβ.symm
  | succ n ih =>
    have hprev := fits_of_fits hfit (Nat.le_succ n)
    have hset' := (setting_advance n s).trans hset
    have hshows := ih hprev
    rw [advance_succ] at hfit ⊢
    have hresolve : (s.advance n).setting.resolve = library.resolve := by rw [hset']
    have hlevels : (s.advance n).setting.options.maxNestingDepth = options.maxNestingDepth := by
      rw [hset']
    rw [← hresolve, ← hlevels] at hshows ⊢
    have hbound : (s.advance n).setting.options.maxNestingDepth <
        nestingBound (s.advance n).setting (s.advance n).root := by
      unfold nestingBound
      omega
    exact (playChain_performs (s.advance n).setting main _ hbound (Nat.zero_add _)
      (hstart.advance n hprev).tree hfit hshows).1

theorem Coherent.size_eq {main : Timeline} (hs : s.Coherent main) (hfit : s.animator.arena.Fits) :
    s.animator.arena.size = 0 + 1 + (carriedAll s.root.children).length := by
  have hperm : s.animator.arena.handles.Perm (s.animator.root :: carriedAll s.root.children) := by
    refine (List.perm_ext_iff_of_nodup (Arena.nodup_handles hfit) hs.tree.nodup).mpr fun g => ?_
    rw [Arena.mem_handles hfit]
    constructor
    · rintro ⟨x, hx⟩
      exact hs.all hx
    · exact hs.tree.driven.live_of_mem
  rw [← Arena.length_handles, hperm.length_eq, List.length_cons]
  omega

/-- A tick takes the slots that the scene says. -/
theorem size_slots_succ {library : Library} {main : Timeline} {options : Options}
    (hs : s = start library main options) (n : Nat)
    (hroom : (s.advance n).animator.arena.Room (s.advance (n + 1)).animator.arena
      (0 + 1 + Scene.peakBelow library.resolve (options.maxNestingDepth + 1) main n)) :
    (s.advance (n + 1)).animator.arena.slots.size = max (s.advance n).animator.arena.slots.size
      (0 + 1 + Scene.peakBelow library.resolve (options.maxNestingDepth + 1) main n) := by
  have hgrow : (s.advance n).animator.arena.slots.size ≤
      (s.advance (n + 1)).animator.arena.slots.size := by
    rw [advance_succ]
    exact size_le_size_tick _
  have hfit := hroom.fits_start hgrow
  have hnow := (hs ▸ coherent_start library main options : s.Coherent main).advance n hfit
  have hshows := shows_advance (fun _ => 0) hs rfl n hfit
  have hset : (s.advance n).setting = ⟨library.resolve, options⟩ := by
    rw [setting_advance, hs]
    rfl
  rw [advance_succ] at hroom ⊢
  have hresolve : (s.advance n).setting.resolve = library.resolve := by rw [hset]
  have hlevels : (s.advance n).setting.options.maxNestingDepth = options.maxNestingDepth := by
    rw [hset]
  rw [← hresolve, ← hlevels] at hshows hroom ⊢
  have hbound : (s.advance n).setting.options.maxNestingDepth <
      nestingBound (s.advance n).setting (s.advance n).root := by
    unfold nestingBound
    omega
  exact playChain_fills (s.advance n).setting main _ 0 hbound (Nat.zero_add _) hnow.tree hshows
    (hnow.size_eq hfit) hroom

/-- Every node of a stage shows the scene of a timeline, or has nothing below it. -/
theorem shows_of_at {resolve : CharId → Option Resolved} {main : Timeline} {l σ j : Nat}
    (hroot : Shows resolve s.animator.arena β σ l main j s.animator.root s.root.children)
    (hbare : s.root.animator? = none) (hm : At s.root d m) :
    (∃ e t k h, d + e = l ∧ (∀ g, m.animator? = some g → g = h) ∧
      Shows resolve s.animator.arena β σ e t k h m.children ∧
      ∀ i < k, ∃ i' < j,
        Scene.peakBelow resolve (e + 1) t i ≤ Scene.peakBelow resolve (l + 1) main i') ∨
    m.animator? = none ∧ m.children = [] := by
  induction hm with
  | root =>
    refine .inl ⟨l, main, j, s.animator.root, Nat.zero_add l, fun g hg => ?_, hroot, fun i hi => ?_⟩
    · rw [hbare] at hg
      cases hg
    · exact ⟨i, hi, Nat.le_refl _⟩
  | @child m c d hm hc ih =>
    rcases ih with ⟨e, t, k, h, hde, -, hshows, hpeaks⟩ | ⟨-, hempty⟩
    · rcases hshows.below hc with ⟨g, e, u, k', hg, rfl, hclip, seat, hseat, hplays⟩ | hnone
      · refine .inl ⟨e, u, k', g, by omega, fun k hk => ?_, hclip, fun i hi => ?_⟩
        · exact (Option.some.inj (hg.symm.trans hk)).symm
        · obtain ⟨i', hi', hle⟩ := Scene.exists_peakBelow_le hseat hplays hi
          obtain ⟨i'', hi'', hle'⟩ := hpeaks i' hi'
          exact ⟨i'', hi'', hle.trans hle'⟩
      · exact .inr hnone
    · rw [hempty] at hc
      cases hc

/-- A stage whose scenes never have too many animators at once has room for its slots. -/
theorem fits_of_peaks {library : Library} {main : Timeline} {options : Options}
    (hs : s = start library main options) (n : Nat)
    (hpeaks : ∀ i < n, 0 + 1 +
      Scene.peakBelow library.resolve (options.maxNestingDepth + 1) main i ≤ UInt32.size) :
    (s.advance n).animator.arena.Fits := by
  induction n with
  | zero =>
    subst hs
    show 1 ≤ UInt32.size
    decide
  | succ n ih =>
    have hfit := ih fun i hi => hpeaks i (Nat.lt_succ_of_lt hi)
    have hroom : (s.advance n).animator.arena.Room (s.advance (n + 1)).animator.arena _ :=
      .inr ⟨hfit, hpeaks n (Nat.lt_succ_self n)⟩
    exact hroom.fits (size_slots_succ hs n hroom)

theorem Coherent.ne_root {main : Timeline} (hs : s.Coherent main) (hbare : s.root.animator? = none)
    (hm : At s.root d m) (hg : m.animator? = some g) : g ≠ s.animator.root := by
  cases hm with
  | root =>
    rw [hbare] at hg
    cases hg
  | child hm hc =>
    obtain ⟨h, x, -, hx, hparent, -⟩ := hs.mirrors.refers hm hc hg
    rintro rfl
    obtain ⟨y, hy, hnone, -⟩ := hs.tree.driven.get?
    rw [hx] at hy
    cases hy
    rw [hparent] at hnone
    cases hnone

/-- A clip that plays has below it what a stage of its own would show after as many ticks. -/
theorem clip_plays_as_stage {document : Document} {options : Options}
    (hs : ofDocument document options = .ok s) (n : Nat)
    (hfit : (s.advance n).animator.arena.Fits) (hc : At (s.advance n).root d c)
    (hg : c.animator? = some g) :
    ∃ x j, (s.advance n).animator.arena.get? g = some x ∧ s.SpawnedAgo n j g ∧
      d ≤ options.maxNestingDepth ∧
      ∀ own : Options, own.maxNestingDepth = options.maxNestingDepth - d →
        eraseAll c.children =
          eraseAll ((start document.library x.timeline own).advance j).root.children := by
  obtain ⟨main, hmain, hstart⟩ := coherent_ofDocument hs
  have heq : s = start document.library main options := by
    rw [ofDocument, hmain] at hs
    cases hs
    rfl
  -- an animator that no tick spawned would be born after the last one
  let β : Handle → Nat := fun h => if h = s.animator.root then 0 else n + 1
  have hroot := shows_advance β heq (if_pos rfl) n hfit
  have hbare := animator?_root_advance heq n
  obtain ⟨e, t, j, h, hde, hgh, hshows, hpeaks⟩ | ⟨hnone, -⟩ := shows_of_at hroot hbare hc
  · obtain rfl := hgh g hg
    obtain ⟨⟨x, hx, rfl, -⟩, hage, -⟩ := shows_iff.mp hshows
    have hne := (hstart.advance n hfit).ne_root hbare hc hg
    rw [root_advance] at hne
    have hspawned : s.SpawnedAgo n j g := by
      rcases bornAt_cases s β n g with ⟨k, hk, hspawns, hlast, hborn⟩ | ⟨-, hborn⟩
      · exact ⟨k, hk, by omega, hspawns, hlast⟩
      · have hlate : β g = n + 1 := if_neg hne
        omega
    refine ⟨x, j, hx, hspawned, by omega, fun own hown => ?_⟩
    obtain rfl : e = own.maxNestingDepth := by omega
    -- what the stage of its own has at once, the whole stage has had at once
    have hroom : ((start document.library x.timeline own).advance j).animator.arena.Fits := by
      refine fits_of_peaks rfl j fun i hi => ?_
      obtain ⟨i', hi', hle⟩ := hpeaks i hi
      have hnext : (s.advance (i' + 1)).animator.arena.Fits := fits_of_fits hfit hi'
      have hslots := size_slots_succ heq i' (.inl hnext)
      unfold Arena.Fits at hnext
      omega
    exact hshows.eraseAll_eq (shows_advance (fun _ => 0) rfl rfl j hroom)
  · rw [hg] at hnone
    cases hnone

theorem nestedClips_play_as_stages : ∃ s, ofDocument (nestedClips {}) = .ok s ∧
    ∃ c ∈ (s.advance 3).root.children, c.animator? = some ⟨1, 0⟩ ∧ c.children.length = 1 ∧
    ∃ x j, (s.advance 3).animator.arena.get? ⟨1, 0⟩ = some x ∧ s.SpawnedAgo 3 j ⟨1, 0⟩ ∧
      eraseAll c.children = eraseAll ((start (nestedClips {}).library x.timeline
        { maxNestingDepth := 31 }).advance j).root.children := by
  let s : Stage := start (nestedClips {}).library ⟨[placing ⟨1⟩ ⟨5⟩, {}]⟩
  have hs : ofDocument (nestedClips {}) = .ok s := rfl
  obtain ⟨c, hc, hg, hlength⟩ : ∃ c ∈ (s.advance 3).root.children,
      c.animator? = some ⟨1, 0⟩ ∧ c.children.length = 1 := by decide +kernel
  obtain ⟨x, j, hx, hspawned, -, hplays⟩ :=
    clip_plays_as_stage hs 3 (by decide +kernel) (.child .root hc) hg
  exact ⟨s, hs, c, hc, hg, hlength, x, j, hx, hspawned, hplays _ rfl⟩

/-- Once the slots have run out, a clip may show nothing where its timeline would show two clips. -/
theorem crowded_clip_differs : ∃ s, ofDocument (crowding {} [.known secondClip]) = .ok s ∧
    ∃ c ∈ (s.advance 1).root.children, ∃ g x, c.animator? = some g ∧
      (s.advance 1).animator.arena.get? g = some x ∧ s.SpawnedAgo 1 1 g ∧
      eraseAll c.children ≠ eraseAll ((start (crowding {} [.known secondClip]).library x.timeline
        { maxNestingDepth := 31 }).advance 1).root.children := by
  obtain ⟨z, c, b, hshares⟩ := crowded_shares
  obtain ⟨parent, hlive⟩ := hshares.live
  obtain ⟨pre, f, f', post, hevents, -⟩ := hshares.events
  have hspawns : (crowded {} [.known secondClip]).Spawns 0 z := by
    refine ⟨(crowded {} [.known secondClip]).animator.root, ⟨2⟩, ⟨1⟩, ?_⟩
    change _ ∈ (crowded {} [.known secondClip]).tick.2
    rw [hevents]
    exact List.mem_append_right _ List.mem_cons_self
  refine ⟨_, ofDocument_crowding _ _, b, ?_, z, _, hshares.shows, hlive,
    ⟨0, Nat.one_pos, rfl, hspawns, fun i hi hi' => by omega⟩, ?_⟩
  · rw [hshares.children]
    exact List.mem_cons_of_mem c List.mem_cons_self
  · obtain ⟨a, a', hchildren⟩ :=
      children_doubling (crowding {} [.known secondClip]).library { maxNestingDepth := 31 }
    rw [hshares.bare, hchildren]
    exact List.cons_ne_nil _ _ ∘ Eq.symm

end SceneReel.Stage
