import SceneReel.Proofs.Playback.LinkedPlay
import SceneReel.Stage

/-!
Ticks one after another. A stage starts with its tree and its arena linked and with no animator but the
root, and each tick keeps it so.
-/
namespace SceneReel.Stage

def setting (s : Stage) : Setting :=
  ⟨s.library.resolve, s.animator.options⟩

def played (s : Stage) : Node × Run :=
  play s.setting s.animator.root s.root { arena := s.animator.arena }

theorem tick_eq (s : Stage) : s.tick =
    ({ s with
        root := s.played.1
        animator := { s.animator with arena := s.played.2.arena }
        ticks := s.ticks + 1 }, s.played.2.events.toList) := rfl

theorem advance_succ (n : Nat) (s : Stage) : s.advance (n + 1) = (s.advance n).tick.1 := by
  induction n generalizing s with
  | zero => rfl
  | succ n ih =>
    rw [advance, ih]
    rfl

theorem setting_advance (n : Nat) (s : Stage) : (s.advance n).setting = s.setting := by
  induction n with
  | zero => rfl
  | succ n ih =>
    rw [advance_succ, tick_eq]
    exact ih

theorem root_advance (n : Nat) (s : Stage) : (s.advance n).animator.root = s.animator.root := by
  induction n with
  | zero => rfl
  | succ n ih =>
    rw [advance_succ, tick_eq]
    exact ih

theorem record_succ (n : Nat) (s : Stage) (events : Array Event) :
    (s.record (n + 1) events).2 = (s.record n events).2 ++ (s.advance n).tick.2 := by
  induction n generalizing s events with
  | zero => rfl
  | succ n ih =>
    rw [record, ih]
    rfl

theorem mem_record {n : Nat} {s : Stage} {events : Array Event} {e : Event} :
    e ∈ (s.record n events).2 ↔ e ∈ events ∨ ∃ k < n, e ∈ (s.advance k).tick.2 := by
  induction n generalizing s events with
  | zero => simp [record]
  | succ n ih =>
    have happend : e ∈ events ++ s.tick.2 ↔ e ∈ events ∨ e ∈ s.tick.2 := by
      rw [← Array.mem_toList_iff, Array.toList_appendList, List.mem_append, Array.mem_toList_iff]
    rw [record, ih, happend, or_assoc]
    refine or_congr_right ⟨?_, ?_⟩
    · rintro (he | ⟨k, hk, he⟩)
      · exact ⟨0, Nat.succ_pos n, he⟩
      · exact ⟨k + 1, Nat.succ_lt_succ hk, he⟩
    · rintro ⟨k, hk, he⟩
      cases k with
      | zero => exact .inl he
      | succ k => exact .inr ⟨k, Nat.lt_of_succ_lt_succ hk, he⟩

theorem size_le_size_tick (s : Stage) :
    s.animator.arena.slots.size ≤ s.tick.1.animator.arena.slots.size :=
  playChain_grows s.setting (nestingBound s.setting s.root) s.animator.root s.root
    { arena := s.animator.arena }

/-- An arena that has room in the end had room all the time. -/
theorem fits_of_fits {s : Stage} {n k : Nat} (h : (s.advance n).animator.arena.Fits) (hk : k ≤ n) :
    (s.advance k).animator.arena.Fits := by
  induction hk with
  | refl => exact h
  | @step n _ ih =>
    rw [advance_succ] at h
    exact ih (h.mono (size_le_size_tick _))

/-- The tree and the arena of a stage are linked, and there are no animators but those of the tree. -/
structure Coherent (main : Timeline) (s : Stage) : Prop where
  tree : Linked s.setting main s.animator.arena none 0 s.animator.root s.root.children
  all : ∀ {g x}, s.animator.arena.get? g = some x → g ∈ s.animator.root :: s.root.handles

theorem coherent_start (library : Library) (main : Timeline) (options : Options) :
    (start library main options).Coherent main := by
  have hfit : (Arena.alloc {} main none 0).2.Fits := by
    simp [Arena.Fits, Arena.alloc, UInt32.size]
  obtain ⟨-, hget⟩ := Arena.Stored.empty.get?_alloc hfit
  have hlive : (Arena.alloc {} main none 0).2.get? (Arena.alloc {} main none 0).1 =
      some { timeline := main } := by rw [hget, if_pos rfl]
  refine ⟨⟨⟨Arena.Stored.empty.alloc main none 0, ?_⟩, ?_, List.pairwise_singleton _ _⟩, ?_⟩
  · have hlook : ∀ {k x}, Arena.lookup (Arena.alloc {} main none 0).2.slots k = some x →
        x = { timeline := main } := by
      intro k x hx
      have hx' := (hget k).symm.trans hx
      split at hx'
      · exact (Option.some.inj hx').symm
      · simp [Arena.get?, Arena.lookup] at hx'
    refine ⟨fun hx => ?_, fun hx hc => ?_⟩
    · rw [hlook hx]
      exact List.nodup_nil
    · rw [hlook hx] at hc
      cases hc
  · have hnone : ∀ c, c ∉ (start library main options).root.children := fun c =>
      List.not_mem_nil
    exact .intro hlive rfl rfl (Nat.zero_le _) (.inl rfl) (.refl _) List.nodup_nil
      (fun c hc => absurd hc (hnone c)) (fun c hc => absurd hc (hnone c))
      (fun c hc => absurd hc (hnone c))
  · intro g x hx
    have hx' := (hget g).symm.trans hx
    split at hx'
    · exact List.mem_cons.mpr (.inl ‹_›)
    · simp [Arena.get?, Arena.lookup] at hx'

theorem kind_root_advance {library : Library} {main : Timeline} {options : Options} {s : Stage}
    (hs : s = start library main options) (n : Nat) : (s.advance n).root.kind = .container := by
  induction n with
  | zero =>
    rw [hs]
    rfl
  | succ n ih =>
    have hhead : (s.advance n).played.1.head = (s.advance n).root.head :=
      (playChain_links (s.advance n).setting main _).head _ _ _
    rw [advance_succ, tick_eq, ← ih]
    exact (Node.head_eq_iff.mp hhead).2.1

/-- A tick keeps the link and reports nothing detached. -/
theorem Coherent.tick {main : Timeline} {s : Stage} (hs : s.Coherent main)
    (hfit : s.tick.1.animator.arena.Fits) :
    s.tick.1.Coherent main ∧ ∀ h slots, Event.retire h slots .detached ∉ s.tick.2 := by
  obtain ⟨hlinked, hconf, hevents⟩ :=
    (playChain_links s.setting main (nestingBound s.setting s.root)).plays
      (r := ⟨s.animator.arena, #[]⟩) hs.tree hfit
  refine ⟨⟨hlinked, fun hx => ?_⟩, fun h slots hin => ?_⟩
  · rcases hconf.origin hx with hg | ⟨hx, hg⟩
    · exact hg
    · exact absurd (hs.all hx) hg
  · refine hevents ?_ h slots (Array.mem_toList_iff.mp hin)
    exact fun _ _ => Array.not_mem_empty _

theorem Coherent.advance {main : Timeline} {s : Stage} (hs : s.Coherent main) (n : Nat)
    (hfit : (s.advance n).animator.arena.Fits) : (s.advance n).Coherent main := by
  induction n with
  | zero => exact hs
  | succ n ih =>
    have hprev := ih (fits_of_fits hfit (Nat.le_succ n))
    rw [advance_succ] at hfit ⊢
    exact (hprev.tick hfit).1

end SceneReel.Stage
