import SceneReel.Proofs.Playback.Cast

/-!
Laps: whatever the targets, the frames of an animator come one after another, round by round, and its
cursor tells how many have come. An animator in the midst of its frame is busy; its cursor is one behind.
-/
namespace SceneReel

/-- The frames that an animator has played, each with whether it began a further round. -/
def framesOf (h : Handle) (events : List Event) : List (Nat × Bool) :=
  events.filterMap fun
    | .frame e => if e.animator = h then some (e.frame, e.looped) else none
    | _ => none

/-- The cursor after a number of frames; the number of frames of a timeline after the last one. -/
def cursorAfter (frameCount k : Nat) : Nat :=
  if k = 0 then 0 else (k - 1) % frameCount + 1

/-- Frames of a timeline in their order, over and over; a timeline without frames has none. -/
structure InLaps (t : Timeline) (frames : List (Nat × Bool)) : Prop where
  inOrder : frames = (List.range frames.length).map fun i =>
    (i % t.frameCount, decide (0 < i ∧ i % t.frameCount = 0))
  empty : t.frameCount = 0 → frames = []

theorem succ_mod {k : Nat} (hk : 0 < k) (n : Nat) :
    (n + 1) % k = if n % k + 1 = k then 0 else n % k + 1 := by
  have hlt := Nat.mod_lt n hk
  have hdiv : n + 1 = k * (n / k) + (n % k + 1) := by
    rw [← Nat.add_assoc, Nat.div_add_mod]
  rw [hdiv, Nat.mul_add_mod]
  split
  · rw [‹n % k + 1 = k›, Nat.mod_self]
  · exact Nat.mod_eq_of_lt (by omega)

theorem next_of_cursorAfter {frameCount : Nat} (hcount : frameCount ≠ 0) (k : Nat) :
    (cursorAfter frameCount k = frameCount ↔ 0 < k ∧ k % frameCount = 0) ∧
      (if cursorAfter frameCount k = frameCount then 0 else cursorAfter frameCount k) =
        k % frameCount := by
  unfold cursorAfter
  cases k with
  | zero => simp [Ne.symm hcount]
  | succ k =>
    rw [succ_mod (Nat.pos_of_ne_zero hcount), Nat.add_sub_cancel, if_neg (Nat.succ_ne_zero k)]
    split <;> simp [*]

theorem cursorAfter_le {frameCount k : Nat} (hk : frameCount = 0 → k = 0) :
    cursorAfter frameCount k ≤ frameCount := by
  unfold cursorAfter
  split
  · exact Nat.zero_le _
  · exact Nat.mod_lt _ (Nat.pos_of_ne_zero fun hcount => ‹k ≠ 0› (hk hcount))

theorem InLaps.snoc {t : Timeline} {frames : List (Nat × Bool)} (h : InLaps t frames)
    (hcount : t.frameCount ≠ 0) : InLaps t (frames ++ [(frames.length % t.frameCount,
      decide (0 < frames.length ∧ frames.length % t.frameCount = 0))]) := by
  refine ⟨?_, fun hzero => absurd hzero hcount⟩
  rw [List.length_append, List.length_singleton, List.range_succ, List.map_append, ← h.inOrder]
  rfl

theorem InLaps.nil (t : Timeline) : InLaps t [] :=
  ⟨rfl, fun _ => rfl⟩

namespace Run

def framesOf (past : List Event) (r : Run) (h : Handle) : List (Nat × Bool) :=
  SceneReel.framesOf h (past ++ r.events.toList)

/-- The frames of all animators are in laps, and the cursors of those live agree with them. -/
structure Tally (s : Setting) (before : List (Handle × Timeline)) (past : List Event)
    (busy : List Handle) (r : Run) : Prop where
  inLaps : ∀ {h t}, (h, t) ∈ r.cast s before → InLaps t (r.framesOf past h)
  silent : ∀ {h}, h ∉ (r.cast s before).map Prod.fst → r.framesOf past h = []
  known : ∀ h ∈ busy, h ∈ (r.cast s before).map Prod.fst
  live : ∀ {h x}, r.arena.get? h = some x → (h, x.timeline) ∈ r.cast s before ∧
    (if h ∈ busy then x.cursor + 1 else x.cursor) =
      cursorAfter x.timeline.frameCount (r.framesOf past h).length

variable {s : Setting} {before : List (Handle × Timeline)} {past : List Event} {busy : List Handle}
  {r r' : Run} {h : Handle} {x : Animation}

theorem framesOf_emit {e : Event} (he : ∀ f, e ≠ .frame f) (h : Handle) :
    (r.emit e).framesOf past h = r.framesOf past h := by
  cases e with
  | frame f => exact absurd rfl (he f)
  | _ => simp [framesOf, SceneReel.framesOf]

theorem framesOf_frame (e : FrameEvent) (h : Handle) : (r.emit (.frame e)).framesOf past h =
    r.framesOf past h ++ if e.animator = h then [(e.frame, e.looped)] else [] := by
  by_cases he : e.animator = h <;> simp [framesOf, SceneReel.framesOf, he]

theorem framesOf_retire (reason : RetireReason) (g h : Handle) :
    (r.retire reason g).framesOf past h = r.framesOf past h := by
  unfold framesOf
  rcases r.events_retire reason g with he | ⟨slots, he⟩ <;> simp [he, SceneReel.framesOf]

namespace Tally

/-- The tally stands as long as nothing starts, no frame plays and no cursor moves. -/
theorem of_agree (ht : r.Tally s before past busy) (hcast : r'.cast s before = r.cast s before)
    (hframes : ∀ h, r'.framesOf past h = r.framesOf past h)
    (hlive : ∀ {h y}, r'.arena.get? h = some y → ∃ x, r.arena.get? h = some x ∧
      y.timeline = x.timeline ∧ y.cursor = x.cursor) : r'.Tally s before past busy where
  inLaps hin := by
    rw [hcast] at hin
    rw [hframes]
    exact ht.inLaps hin
  silent hout := by
    rw [hcast] at hout
    rw [hframes]
    exact ht.silent hout
  known h hb := by
    rw [hcast]
    exact ht.known h hb
  live hy := by
    obtain ⟨x, hx, htimeline, hcursor⟩ := hlive hy
    rw [hcast, hframes, htimeline, hcursor]
    exact ht.live hx

theorem emit (ht : r.Tally s before past busy) {e : Event} (he : e.isChange = false)
    (hf : ∀ f, e ≠ .frame f) : (r.emit e).Tally s before past busy :=
  ht.of_agree (cast_emit he) (framesOf_emit hf) fun hy => ⟨_, hy, rfl, rfl⟩

theorem retire (ht : r.Tally s before past busy) (reason : RetireReason) (h : Handle) :
    (r.retire reason h).Tally s before past busy := by
  refine ht.of_agree (cast_retire reason h) (framesOf_retire reason h) fun hy => ?_
  rw [arena_retire] at hy
  obtain ⟨x, hx, -, he⟩ := Arena.get?_of_get?_retire hy
  rw [he]
  exact ⟨x, hx, rfl, rfl⟩

theorem start (ht : r.Tally s before past busy) (hr : r.Accounted s before) {char : CharId}
    {t : Timeline} (hchar : s.resolve char = some (.timeline t)) (owner : Handle)
    (object : ObjectId)
    (hspare : (r.start t owner (r.spawnDepth owner) object char).Sparing s before) :
    (r.start t owner (r.spawnDepth owner) object char).Tally s before past busy := by
  have hfresh := hr.fresh hchar owner object hspare
  have hframes : ∀ h, (r.start t owner (r.spawnDepth owner) object char).framesOf past h =
      r.framesOf past h := fun h => framesOf_emit (fun f => by simp) h
  have hcast := cast_start (r := r) before hchar owner (r.spawnDepth owner) object
  have hlook := fun {k y} => hr.stored.get?_of_get?_spawn (k := k) (y := y) hspare.1
  rw [← arena_start r t owner (r.spawnDepth owner) object char] at hlook
  generalize (r.arena.spawn t owner (r.spawnDepth owner)).1 = child at hfresh hcast hlook
  generalize r.start t owner (r.spawnDepth owner) object char = r' at hframes hcast hlook ⊢
  have hnone := ht.silent hfresh
  refine ⟨fun {h u} hin => ?_, fun {h} hout => ?_, fun h hb => ?_, fun {h y} hy => ?_⟩
  · rw [hframes]
    rw [hcast, List.mem_append, List.mem_singleton] at hin
    rcases hin with hin | hin
    · exact ht.inLaps hin
    · cases hin
      rw [hnone]
      exact .nil _
  · rw [hframes]
    rw [hcast, List.map_append, List.mem_append, not_or] at hout
    exact ht.silent hout.1
  · rw [hcast, List.map_append]
    exact List.mem_append_left _ (ht.known h hb)
  · rw [hframes, hcast]
    rcases hlook hy with ⟨rfl, he, -⟩ | ⟨x, hx, he⟩
    · have hb : h ∉ busy := fun hb => hfresh (ht.known h hb)
      rw [hnone, if_neg hb, he]
      exact ⟨List.mem_append_right _ (List.mem_singleton.mpr rfl), rfl⟩
    · rw [he]
      obtain ⟨hin, hlap⟩ := ht.live hx
      exact ⟨List.mem_append_left _ hin, hlap⟩

/-- The cursor of an animator that is not busy tells its next frame, and there is one. -/
theorem next (ht : r.Tally s before past busy) (hx : r.arena.get? h = some x)
    (hcount : x.timeline.frameCount ≠ 0) (hb : h ∉ busy) :
    (x.cursor = x.timeline.frameCount ↔ 0 < (r.framesOf past h).length ∧
      (r.framesOf past h).length % x.timeline.frameCount = 0) ∧
    (if x.cursor = x.timeline.frameCount then 0 else x.cursor) =
      (r.framesOf past h).length % x.timeline.frameCount := by
  have hlap := (ht.live hx).2
  rw [if_neg hb] at hlap
  rw [hlap]
  exact next_of_cursorAfter hcount _

theorem framesOf_next (ht : r.Tally s before past busy) (hx : r.arena.get? h = some x)
    (hcount : x.timeline.frameCount ≠ 0) (hb : h ∉ busy) (plan : Plan) {number : Nat}
    (hnumber : number = if x.cursor = x.timeline.frameCount then 0 else x.cursor) :
    number = (r.framesOf past h).length % x.timeline.frameCount ∧
    ((r.seek h number).emit
      (.frame (plan.report h number (x.cursor == x.timeline.frameCount)))).framesOf past h =
        r.framesOf past h ++ [((r.framesOf past h).length % x.timeline.frameCount,
          decide (0 < (r.framesOf past h).length ∧
            (r.framesOf past h).length % x.timeline.frameCount = 0))] := by
  obtain ⟨hround, hnext⟩ := ht.next hx hcount hb
  rw [hnext] at hnumber
  have hlooped : (x.cursor == x.timeline.frameCount) = decide (0 < (r.framesOf past h).length ∧
      (r.framesOf past h).length % x.timeline.frameCount = 0) := by
    rw [← decide_eq_decide.mpr hround]
    rfl
  refine ⟨hnumber, ?_⟩
  rw [framesOf_frame, Plan.report, if_pos rfl, hlooped, hnumber]
  rfl

theorem frame (ht : r.Tally s before past busy) (hr : r.Accounted s before)
    (hspare : r.Sparing s before) (hx : r.arena.get? h = some x)
    (hcount : x.timeline.frameCount ≠ 0) (hb : h ∉ busy) (plan : Plan) {number : Nat}
    (hnumber : number = if x.cursor = x.timeline.frameCount then 0 else x.cursor) :
    ((r.seek h number).emit (.frame (plan.report h number (x.cursor == x.timeline.frameCount)))).Tally
      s before past (h :: busy) := by
  obtain ⟨hnumber, hself⟩ := ht.framesOf_next hx hcount hb plan hnumber
  obtain ⟨hin, -⟩ := ht.live hx
  have heh : (plan.report h number (x.cursor == x.timeline.frameCount)).animator = h := rfl
  generalize plan.report h number (x.cursor == x.timeline.frameCount) = e at hself heh ⊢
  generalize hr' : Run.emit _ _ = r' at hself ⊢
  have hcast : r'.cast s before = r.cast s before := hr' ▸ cast_emit rfl
  have hother : ∀ {k}, k ≠ h → r'.framesOf past k = r.framesOf past k := by
    intro k hk
    rw [← hr', framesOf_frame, if_neg fun he => hk (he.symm.trans heh), List.append_nil]
    rfl
  have hget : ∀ k, r'.arena.get? k = if k = h then
      (r.arena.get? h).map fun x => { x with cursor := number } else r.arena.get? k := by
    subst hr'
    exact Arena.get?_modify r.arena h _
  refine ⟨fun {k u} hk => ?_, fun {k} hout => ?_, fun k hk => ?_, fun {k y} hy => ?_⟩
  · rw [hcast] at hk
    by_cases hkh : k = h
    · subst hkh
      have hu : (k, u) = (k, x.timeline) :=
        List.inj_on_of_nodup_map (hr.nodup hspare) hk hin rfl
      cases hu
      rw [hself]
      exact (ht.inLaps hin).snoc hcount
    · rw [hother hkh]
      exact ht.inLaps hk
  · rw [hcast] at hout
    have hkh : k ≠ h := fun he => hout (he ▸ List.mem_map_of_mem hin)
    rw [hother hkh]
    exact ht.silent hout
  · rw [hcast]
    rcases List.mem_cons.mp hk with rfl | hk
    · exact List.mem_map_of_mem hin
    · exact ht.known k hk
  · rw [hget] at hy
    rw [hcast]
    by_cases hkh : k = h
    · subst hkh
      rw [if_pos rfl, hx, Option.map_some] at hy
      cases hy
      rw [if_pos List.mem_cons_self, hself]
      refine ⟨hin, ?_⟩
      rw [cursorAfter, List.length_append, List.length_singleton, if_neg (Nat.succ_ne_zero _),
        Nat.add_sub_cancel, hnumber]
    · rw [if_neg hkh] at hy
      rw [hother hkh]
      have hbusy : k ∈ h :: busy ↔ k ∈ busy := by simp [hkh]
      simp only [hbusy]
      exact ht.live hy

theorem advance (ht : r.Tally s before past (h :: busy)) (hb : h ∉ busy) :
    (r.advance h).Tally s before past busy := by
  refine ⟨ht.inLaps, ht.silent, fun k hk => ht.known k (List.mem_cons_of_mem h hk),
    fun {k y} hy => ?_⟩
  replace hy := (Arena.get?_modify r.arena h _ k).symm.trans hy
  by_cases hkh : k = h
  · subst hkh
    rw [if_pos rfl] at hy
    obtain ⟨x, hx, rfl⟩ := Option.map_eq_some_iff.mp hy
    obtain ⟨hin, hlap⟩ := ht.live hx
    rw [if_pos List.mem_cons_self] at hlap
    rw [if_neg hb]
    exact ⟨hin, hlap⟩
  · rw [if_neg hkh] at hy
    have hbusy : k ∈ h :: busy ↔ k ∈ busy := by simp [hkh]
    have hlive := ht.live hy
    simp only [hbusy] at hlive
    exact hlive

end Tally

end Run

end SceneReel
