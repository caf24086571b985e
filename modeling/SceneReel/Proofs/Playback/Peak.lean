import SceneReel.Proofs.Playback.Scene

/-!
How many animators a scene has, and the most that it has at once during its next tick. A clip that plays
in a scene is never ahead of it: what the clip has had at once, the scene has had at once.
-/
namespace SceneReel

namespace Seat

/-- How many animators a child of a scene has, `b` counting those below a clip. -/
def weigh (b : Timeline → Nat → Nat) (s : Seat) : Nat :=
  match s.clip? with
  | none => 0
  | some (t, j) => b t j + 1

def total (f : Seat → Nat) : List Seat → Nat
  | [] => 0
  | s :: ss => f s + total f ss

def weighAll (b : Timeline → Nat → Nat) (ss : List Seat) : Nat :=
  total (weigh b) ss

theorem total_append (f : Seat → Nat) (ss ss' : List Seat) :
    total f (ss ++ ss') = total f ss + total f ss' := by
  induction ss with
  | nil => simp [total]
  | cons s ss ih => simp [total, ih, Nat.add_assoc]

theorem le_total (f : Seat → Nat) {s : Seat} {ss : List Seat} (hs : s ∈ ss) : f s ≤ total f ss := by
  induction ss with
  | nil => cases hs
  | cons s' ss ih =>
    rw [total]
    rcases List.mem_cons.mp hs with rfl | hs
    · omega
    · have hrest := ih hs
      omega

end Seat

namespace Command

/-- How many animators a command has at once for the clip that it starts, `p` counting those below. -/
def debut (resolve : CharId → Option Resolved) (e : Nat) (p : Timeline → Nat → Nat) : Command → Nat
  | .place char object _ m =>
    match (Seat.fresh resolve e char object m).clip? with
    | none => 0
    | some (t, _) => p t 0 + 1
  | _ => 0

/-- The most animators that some commands have at once. -/
def peak (resolve : CharId → Option Resolved) (e : Nat) (b p : Timeline → Nat → Nat) :
    List Command → List Seat → Nat
  | [], _ => 0
  | c :: cs, ss => max (Seat.weighAll b ss + c.debut resolve e p)
      (peak resolve e b p cs (c.arrange seats (Seat.fresh resolve e) ss))

end Command

namespace Scene

/-- How many animators a child has at most while a clip plays and others are still to play. -/
def nestedWeight (b p : Timeline → Nat → Nat) (id : ObjectId) (ids : List ObjectId) (s : Seat) : Nat :=
  if s.id = id then s.weigh p else if s.id ∈ ids then s.weigh b else s.older.weigh b

def nestedPeak (b p : Timeline → Nat → Nat) (ss : List Seat) : List ObjectId → Nat
  | [] => 0
  | id :: ids => max (Seat.total (nestedWeight b p id ids) ss) (nestedPeak b p ss ids)

/-- The most animators that a scene has at once during its next tick. -/
def peak (resolve : CharId → Option Resolved) (e : Nat) (b p : Timeline → Nat → Nat) (t : Timeline)
    (sc : Scene) : Nat :=
  if t.frameCount = 0 then 0
  else max (nestedPeak b p sc.seats sc.order)
    (Command.peak resolve e b p (sc.commands t) (sc.seats.map Seat.older))

section Below

variable (resolve : CharId → Option Resolved)

def below : Nat → Timeline → Nat → Nat
  | 0 => fun _ _ => 0
  | e + 1 => fun t j => Seat.weighAll (below e) (after resolve e t j).seats

/-- The most animators that are below a clip of a scene at once, during the tick after so many. -/
def peakBelow : Nat → Timeline → Nat → Nat
  | 0 => fun _ _ => 0
  | e + 1 => fun t j => (after resolve e t j).peak resolve e (below resolve e) (peakBelow e) t

end Below

variable {resolve : CharId → Option Resolved} {e j : Nat} {t u : Timeline} {b p : Timeline → Nat → Nat}
  {s : Seat} {ss : List Seat}

theorem le_nestedPeak {ids : List ObjectId} (hid : s.id ∈ ids) (hs : s ∈ ss) :
    s.weigh p ≤ nestedPeak b p ss ids := by
  induction ids with
  | nil => cases hid
  | cons id ids ih =>
    rw [nestedPeak]
    by_cases he : s.id = id
    · apply Nat.le_trans _ (Nat.le_max_left _ _)
      have hself : nestedWeight b p id ids s = s.weigh p := if_pos he
      rw [← hself]
      exact Seat.le_total _ hs
    · apply Nat.le_trans _ (Nat.le_max_right _ _)
      exact ih ((List.mem_cons.mp hid).resolve_left he)

end Scene

namespace Command

/-- The children of a scene as far as it matters which clips play. -/
def marks : Staging (ObjectId × Option (Timeline × Nat)) where
  id := Prod.fst
  move := fun _ x => x
  setVisible := fun _ x => x

theorem respects_mark : Respects (fun (s : Seat) x => (s.id, s.clip?) = x) seats marks where
  id := fun _ _ h => congrArg Prod.fst h
  move := fun _ _ _ h => h
  setVisible := fun _ _ _ h => h

variable {resolve : CharId → Option Resolved} {e k : Nat} {u : Timeline}
  {b p : Timeline → Nat → Nat} {s : Seat} {ss : List Seat} {ids : List ObjectId}

theorem clip_arrange (p : Timeline → Nat → Nat) (ids : List ObjectId) {c : Command}
    (hs : s ∈ c.arrange seats (Seat.fresh resolve e) ss)
    (hclip : s.clip? = some (u, k)) :
    (∃ s' ∈ ss, s'.id = s.id ∧ s'.clip? = some (u, k) ∧ c.removed? ≠ some s.id) ∨
      k = 1 ∧ c.debut resolve e p = p u 0 + 1 ∧ s.id ∈ c.playing resolve e ids := by
  rcases mem_arrange_of_view respects_mark (fun _ _ => rfl) (fun _ _ => rfl) hs with
    ⟨s', hs', hmark, hkept⟩ | ⟨char, object, before, m, rfl, rfl⟩
  · obtain ⟨hid, hclip'⟩ := Prod.mk.inj hmark
    exact .inl ⟨s', hs', hid, hclip'.trans hclip, hkept⟩
  · have hfresh : k = 1 ∧ (Seat.fresh resolve e char object m).id = object := by
      unfold Seat.fresh at hclip ⊢
      split at hclip
      · cases hclip
        exact ⟨rfl, rfl⟩
      · cases hclip
    refine .inr ⟨hfresh.1, ?_, ?_⟩
    · simp only [debut, hclip]
    · simp [playing, hclip, hfresh.2]

theorem mem_playing {c : Command} {id : ObjectId} (hid : id ∈ ids) (hkept : c.removed? ≠ some id) :
    id ∈ c.playing resolve e ids := by
  cases c with
  | place char object before m =>
    dsimp only [playing]
    split
    · exact List.mem_append_left _ hid
    · exact hid
  | remove object =>
    refine List.mem_filter.mpr ⟨hid, decide_eq_true fun he => hkept ?_⟩
    rw [he]
    rfl
  | _ => exact hid

theorem clip_arrangeAll (cmds : List Command)
    (horder : ∀ s ∈ ss, s.clip?.isSome → s.id ∈ ids)
    (hs : s ∈ arrangeAll seats (Seat.fresh resolve e) cmds ss) (hclip : s.clip? = some (u, k)) :
    s.id ∈ playingAll resolve e cmds ids ∧
      ((∃ s' ∈ ss, s'.id = s.id ∧ s'.clip? = some (u, k)) ∨
        k = 1 ∧ p u 0 + 1 ≤ peak resolve e b p cmds ss) := by
  induction cmds generalizing ss ids with
  | nil =>
    refine ⟨horder s hs ?_, .inl ⟨s, hs, rfl, hclip⟩⟩
    rw [hclip]
    rfl
  | cons c cmds ih =>
    have horder' : ∀ s ∈ c.arrange seats (Seat.fresh resolve e) ss, s.clip?.isSome →
        s.id ∈ c.playing resolve e ids := by
      intro s hs hsome
      obtain ⟨⟨u, k⟩, hclip⟩ := Option.isSome_iff_exists.mp hsome
      rcases clip_arrange p ids hs hclip with ⟨s', hs', hid, hclip', hkept⟩ | ⟨-, -, hnew⟩
      · rw [← hid] at hkept ⊢
        refine mem_playing (horder s' hs' ?_) hkept
        rw [hclip']
        rfl
      · exact hnew
    obtain ⟨hin, hfrom⟩ := ih horder' hs
    refine ⟨hin, ?_⟩
    rw [peak]
    rcases hfrom with ⟨s', hs', hid, hclip'⟩ | ⟨hk, hpeak⟩
    · rcases clip_arrange p ids hs' hclip' with
        ⟨s'', hs'', hid', hclip'', -⟩ | ⟨hk, hdebut, -⟩
      · exact .inl ⟨s'', hs'', hid'.trans hid, hclip''⟩
      · refine .inr ⟨hk, ?_⟩
        omega
    · exact .inr ⟨hk, Nat.le_trans hpeak (Nat.le_max_right _ _)⟩

end Command

namespace Scene

variable {resolve : CharId → Option Resolved} {e j k : Nat} {t u : Timeline} {s : Seat}

theorem peakBelow_of_empty (ht : t.frameCount = 0) : peakBelow resolve (e + 1) t j = 0 :=
  if_pos ht

theorem peakBelow_of_frames (ht : t.frameCount ≠ 0) : peakBelow resolve (e + 1) t j =
    max (nestedPeak (below resolve e) (peakBelow resolve e) (after resolve e t j).seats
        (after resolve e t j).order)
      (Command.peak resolve e (below resolve e) (peakBelow resolve e)
        ((after resolve e t j).commands t) ((after resolve e t j).seats.map Seat.older)) :=
  if_neg ht

/-- The clips that play are those in the order. -/
theorem mem_order (hs : s ∈ (after resolve e t j).seats) (hsome : s.clip?.isSome) :
    s.id ∈ (after resolve e t j).order := by
  induction j generalizing s with
  | zero => cases hs
  | succ j ih =>
    rw [after, tick] at hs ⊢
    by_cases ht : t.frameCount = 0
    · rw [if_pos ht] at hs ⊢
      exact ih hs hsome
    · rw [if_neg ht] at hs ⊢
      obtain ⟨⟨u, k⟩, hclip⟩ := Option.isSome_iff_exists.mp hsome
      refine (Command.clip_arrangeAll (b := fun _ _ => 0) (p := fun _ _ => 0) _ ?_ hs hclip).1
      intro s hs hsome
      obtain ⟨s', hs', rfl⟩ := List.mem_map.mp hs
      refine ih (s := s') hs' ?_
      simpa [Seat.older] using hsome

/-- A clip that plays has just played a tick, along with its scene. -/
theorem clip_after (hs : s ∈ (after resolve e t (j + 1)).seats) (hclip : s.clip? = some (u, k)) :
    ∃ i, k = i + 1 ∧ peakBelow resolve e u i ≤ peakBelow resolve (e + 1) t j ∧
      (i = 0 ∨ ∃ s' ∈ (after resolve e t j).seats, s'.clip? = some (u, i)) := by
  rw [after, tick] at hs
  by_cases ht : t.frameCount = 0
  · rw [if_pos ht, after_of_empty ht] at hs
    cases hs
  · rw [if_neg ht] at hs
    rw [peakBelow_of_frames ht]
    have horder : ∀ s ∈ (after resolve e t j).seats.map Seat.older, s.clip?.isSome →
        s.id ∈ (after resolve e t j).order := by
      intro s hs hsome
      obtain ⟨s', hs', rfl⟩ := List.mem_map.mp hs
      refine mem_order (s := s') hs' ?_
      simpa [Seat.older] using hsome
    obtain ⟨-, ⟨s', hs', -, hclip'⟩ | ⟨rfl, hdebut⟩⟩ :=
      Command.clip_arrangeAll (b := below resolve e) (p := peakBelow resolve e) _ horder hs hclip
    · obtain ⟨s'', hs'', rfl⟩ := List.mem_map.mp hs'
      obtain ⟨⟨u', i⟩, hclip'', heq⟩ := Option.map_eq_some_iff.mp hclip'
      obtain ⟨rfl, rfl⟩ := Prod.mk.inj heq
      refine ⟨i, rfl, ?_, .inr ⟨s'', hs'', hclip''⟩⟩
      have hin := mem_order hs'' (by rw [hclip'']; rfl)
      have hpeak := le_nestedPeak (b := below resolve e) (p := peakBelow resolve e) hin hs''
      rw [Seat.weigh, hclip''] at hpeak
      dsimp only at hpeak
      omega
    · refine ⟨0, rfl, ?_, .inl rfl⟩
      omega

/-- What a clip has had at once, the scene that shows it has had at once. -/
theorem exists_peakBelow_le (hs : s ∈ (after resolve e t j).seats) (hclip : s.clip? = some (u, k))
    {i : Nat} (hi : i < k) :
    ∃ i' < j, peakBelow resolve e u i ≤ peakBelow resolve (e + 1) t i' := by
  induction j generalizing s k with
  | zero => cases hs
  | succ j ih =>
    obtain ⟨k, rfl, hpeak, hbefore⟩ := clip_after hs hclip
    rcases Nat.lt_succ_iff_lt_or_eq.mp hi with hi | rfl
    · rcases hbefore with rfl | ⟨s', hs', hclip'⟩
      · exact absurd hi (Nat.not_lt_zero i)
      · obtain ⟨i', hi', hle⟩ := ih hs' hclip' hi
        exact ⟨i', Nat.lt_succ_of_lt hi', hle⟩
    · exact ⟨j, Nat.lt_succ_self j, hpeak⟩

end Scene

end SceneReel
