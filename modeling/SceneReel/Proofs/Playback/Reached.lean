import SceneReel.Proofs.Animator.Session
import SceneReel.Proofs.Arena.Layered

/-!
The arenas that occur in a program: those that animators make when they start, and those that playback
makes of them, at the end of a play as in the midst of one.
-/
namespace SceneReel

/-- The arenas that the operations of the program lead to, each with the animators ever started in it. -/
inductive Arena.Reached : Arena → List (Handle × Timeline) → Prop
  | empty : Reached {} []
  | root {a : Arena} {cast : List (Handle × Timeline)} (t : Timeline) : Reached a cast →
    Reached (a.alloc t none 0).2 (cast ++ [((a.alloc t none 0).1, t)])
  | spawn {a : Arena} {cast : List (Handle × Timeline)} (t : Timeline) (owner : Handle) :
    Reached a cast →
    Reached (a.spawn t owner (Run.spawnDepth { arena := a } owner)).2
      (cast ++ [((a.spawn t owner (Run.spawnDepth { arena := a } owner)).1, t)])
  | retire {a : Arena} {cast : List (Handle × Timeline)} (h : Handle) : Reached a cast →
    Reached (a.retire h).2 cast
  | modify {a : Arena} {cast : List (Handle × Timeline)} (h : Handle) (f : Animation → Animation) :
    Reached a cast → (∀ x, ∃ k, f x = { x with cursor := k }) → Reached (a.modify h f) cast

variable {a : Arena} {s : Setting} {before cast : List (Handle × Timeline)} {r : Run}

theorem Run.keeps_reached (s : Setting) (before : List (Handle × Timeline)) :
    s.Keeps fun r => r.arena.Reached (r.cast s before) where
  emit hr he := by rwa [cast_emit he]
  retire hr reason h := by
    rw [arena_retire, cast_retire]
    exact hr.retire h
  start hr hchar owner object := by
    rw [cast_start before hchar]
    exact hr.spawn _ owner
  modify hr h f hf := hr.modify h f hf

theorem Session.Reached.reached_arena {admits : Session → Node → Prop} {t : Timeline}
    {options : Options} {σ : Session} (hσ : Reached admits t options σ) :
    σ.animator.arena.Reached σ.cast := by
  induction hσ with
  | start => exact .root t .empty
  | @play σ resolve target _ _ ih =>
    have hstart : σ.run.arena.Reached (σ.run.cast (σ.setting resolve) σ.cast) := by
      rwa [cast_run]
    have hend : (σ.played resolve target).2.arena.Reached
        ((σ.played resolve target).2.cast (σ.setting resolve) σ.cast) :=
      playChain_keeps (Run.keeps_reached _ σ.cast) _ _ _ hstart
    exact hend

theorem Arena.Reached.stored (ha : a.Reached cast) : a.Stored := by
  induction ha with
  | empty => exact .empty
  | root t _ ih => exact ih.alloc t none 0
  | spawn t owner _ ih => exact (ih.alloc t _ _).modify owner _
  | retire h _ ih => exact ih.retire h
  | modify h f _ _ ih => exact ih.modify h f

theorem Arena.Reached.numbered (ha : a.Reached cast) (hfit : a.Fits) :
    a.Numbered (cast.map Prod.fst) := by
  induction ha with
  | empty => exact ⟨fun _ => rfl, fun _ => by simp [Arena.generationsOf]⟩
  | @root a cast t ha ih =>
    rw [List.map_append]
    exact (ih (Nat.le_trans (Arena.size_le_size_alloc a t none 0) hfit)).alloc ha.stored hfit
  | @spawn a cast t owner ha ih =>
    rw [List.map_append]
    exact (ih (Nat.le_trans (Arena.size_le_size_spawn a t owner _) hfit)).spawn ha.stored hfit
  | @retire a cast h ha ih =>
    rw [Arena.Fits, Arena.size_retire] at hfit
    exact (ih hfit).congr (Arena.generations_retire a h)
  | @modify a cast h f ha hf ih =>
    rw [Arena.Fits, Arena.size_modify] at hfit
    exact (ih hfit).congr (Arena.generations_modify a h f)

theorem Run.accounted_of_reached (hr : r.arena.Reached (r.cast s before)) : r.Accounted s before :=
  ⟨hr.stored, hr.numbered⟩

theorem Arena.Reached.nodup (ha : a.Reached cast) (hspare : Sparing a cast) :
    (cast.map Prod.fst).Nodup := by
  refine (ha.numbered hspare.1).nodup fun i => ?_
  rw [List.countP_map]
  exact hspare.2 i

theorem Arena.Reached.fresh {h : Handle} {t : Timeline} (ha : a.Reached (cast ++ [(h, t)]))
    (hspare : Sparing a (cast ++ [(h, t)])) : h ∉ cast.map Prod.fst := by
  have hnodup := ha.nodup hspare
  rw [List.map_append, List.nodup_append] at hnodup
  exact fun hin => hnodup.2.2 h hin h List.mem_cons_self rfl

/-- As long as there is room, animators are no deeper than those that they list. -/
theorem Arena.Reached.layered (ha : a.Reached cast) (hspare : Sparing a cast) :
    a.Layered (cast.map Prod.fst) := by
  induction ha with
  | empty =>
    have hnone : ∀ {k x}, Arena.get? {} k = some x → False := fun hx => by
      simp [Arena.get?, Arena.lookup] at hx
    exact ⟨fun hx => (hnone hx).elim, fun hx => (hnone hx).elim,
      fun _ _ _ _ hx => (hnone hx).elim⟩
  | @root a cast t ha ih =>
    have hbefore : Sparing a cast :=
      hspare.mono (Arena.size_le_size_alloc a t none 0) (List.sublist_append_left _ _)
    rw [List.map_append]
    exact (ih hbefore).alloc ha.stored hspare.1 ((ha.root t).fresh hspare)
  | @spawn a cast t owner ha ih =>
    have hbefore : Sparing a cast :=
      hspare.mono (Arena.size_le_size_spawn a t owner _) (List.sublist_append_left _ _)
    rw [List.map_append]
    refine (ih hbefore).spawn ha.stored hspare.1 ((ha.spawn t owner).fresh hspare) fun x hx => ?_
    simp [Run.spawnDepth, hx]
  | @retire a cast h ha ih =>
    refine (ih (hspare.mono ?_ (.refl cast))).retire h
    rw [Arena.size_retire]
  | @modify a cast h f ha hf ih =>
    refine (ih (hspare.mono ?_ (.refl cast))).modify h hf
    rw [Arena.size_modify]

end SceneReel
