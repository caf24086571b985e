import SceneReel.Proofs.Arena.Aside
import SceneReel.Proofs.Playback.Cast

/-!
What becomes of the animators that are there when a run begins. With one that retires go all below it, be
some of their handles given out again later.
-/
namespace SceneReel

open Arena (Descends)

variable {s : Setting} {r : Run} {a : Arena}

namespace Run

/-- The listed animators refer back to those that list them, as far as the slots have indices. -/
structure Kindred (r : Run) : Prop where
  stored : r.arena.Stored
  kinship : r.arena.Fits → Arena.Kinship r.arena.slots

theorem keeps_kindred (s : Setting) : s.Keeps Kindred where
  emit hr _ := ⟨hr.stored, hr.kinship⟩
  retire hr reason h := by
    constructor
    · rw [arena_retire]
      exact hr.stored.retire h
    · intro hfit
      rw [arena_retire, Arena.Fits, Arena.size_retire] at hfit
      rw [arena_retire]
      exact (hr.kinship hfit).retire h
  start {r _ t} hr _ owner object := by
    refine ⟨(hr.stored.alloc _ _ _).modify owner _, fun hfit => ?_⟩
    have hbefore := Nat.le_trans (Arena.size_le_size_spawn r.arena t owner _) hfit
    exact (hr.kinship hbefore).spawn hr.stored hfit
  modify hr h f hf := by
    refine ⟨hr.stored.modify h f, fun hfit => ?_⟩
    rw [Arena.Fits, Arena.size_modify] at hfit
    refine (hr.kinship hfit).modify h fun x => ?_
    obtain ⟨k, he⟩ := hf x
    rw [he]
    exact ⟨rfl, rfl⟩

/-- The animator is live, and no other of its handle was started in the run. -/
def Lasts (s : Setting) (r : Run) (k : Handle) : Prop :=
  (∃ x, r.arena.get? k = some x) ∧ k ∉ r.issued s []

/-- Of the animators of `a`, who was reported retired does not last, and who lasts is listed by one that
does. -/
structure Inherits (s : Setting) (a : Arena) (r : Run) : Prop where
  kindred : r.Kindred
  retired : r.arena.Fits → ∀ {h slots reason}, Event.retire h slots reason ∈ r.events →
    ¬ r.Lasts s h
  listed : r.arena.Fits → ∀ {p k}, Arena.Lists a.slots p k → r.Lasts s k →
    Arena.Lists r.arena.slots p k ∧ r.Lasts s p

theorem Lasts.of_retire (hr : r.Kindred) (hfit : r.arena.Fits) {reason : RetireReason}
    {h k : Handle} (hk : (r.retire reason h).Lasts s k) :
    r.Lasts s k ∧ ¬ Descends r.arena.slots h k := by
  obtain ⟨⟨y, hy⟩, hnew⟩ := hk
  rw [arena_retire] at hy
  rw [issued, cast_retire] at hnew
  obtain ⟨x, hx, -⟩ := Arena.get?_of_get?_retire hy
  refine ⟨⟨⟨x, hx⟩, hnew⟩, fun hd => ?_⟩
  rw [((hr.kinship hfit).get?_retire_of_live hx h).1 hd] at hy
  cases hy

theorem Lasts.of_start (hr : r.Kindred) {owner k : Handle} {char : CharId} {t : Timeline}
    (hchar : s.resolve char = some (.timeline t)) {d : Nat} {object : ObjectId}
    (hfit : (r.start t owner d object char).arena.Fits)
    (hk : (r.start t owner d object char).Lasts s k) : r.Lasts s k := by
  obtain ⟨⟨y, hy⟩, hnew⟩ := hk
  rw [issued_start [] hchar, List.mem_append, List.mem_singleton, not_or] at hnew
  rcases hr.stored.get?_of_get?_spawn hfit hy with ⟨he, -⟩ | ⟨x, hx, -⟩
  · exact absurd he hnew.2
  · exact ⟨⟨x, hx⟩, hnew.1⟩

theorem keeps_inherits (s : Setting) (a : Arena) : s.Keeps (Inherits s a) where
  emit {r e} hr he := by
    have hlasts : ∀ k, (r.emit e).Lasts s k ↔ r.Lasts s k := fun k => by
      rw [Lasts, Lasts, issued, issued, cast_emit he, arena_emit]
    refine ⟨(keeps_kindred s).emit hr.kindred he, fun hfit {h slots reason} hin => ?_,
      fun hfit {p k} hl hk => ?_⟩
    · rw [hlasts]
      rcases Array.mem_push.mp hin with hin | rfl
      · exact hr.retired hfit hin
      · cases he
    · rw [hlasts] at hk ⊢
      exact hr.listed hfit hl hk
  retire {r} hr reason h := by
    refine ⟨(keeps_kindred s).retire hr.kindred reason h, fun hfit {g slots why} hin hg => ?_,
      fun hfit {p k} hl hk => ?_⟩
    · rw [arena_retire, Arena.Fits, Arena.size_retire] at hfit
      obtain ⟨hg, hd⟩ := hg.of_retire hr.kindred hfit
      rcases r.events_retire reason h with he | ⟨slots', he⟩
      · exact hr.retired hfit (he ▸ hin) hg
      · rw [he, Array.mem_push] at hin
        rcases hin with hin | hin
        · exact hr.retired hfit hin hg
        · cases hin
          exact hd .refl
    · rw [arena_retire, Arena.Fits, Arena.size_retire] at hfit
      obtain ⟨hk, hd⟩ := hk.of_retire hr.kindred hfit
      obtain ⟨⟨x, hx, hin⟩, hp⟩ := hr.listed hfit hl hk
      have hout : ¬ Descends r.arena.slots h p := fun hdp => hd (hdp.tail ⟨x, hx, hin⟩)
      have hkh : k ≠ h := fun he => hd (he ▸ .refl)
      have hleft := ((hr.kindred.kinship hfit).get?_retire_of_live hx h).2 hout
      rw [← arena_retire r reason] at hleft
      refine ⟨⟨_, hleft, List.mem_filter.mpr ⟨hin, decide_eq_true hkh⟩⟩, ⟨_, hleft⟩, ?_⟩
      rw [issued, cast_retire]
      exact hp.2
  start {r char t} hr hchar owner object := by
    have hnext := (keeps_kindred s).start hr.kindred hchar owner object
    have hbefore : (r.start t owner (r.spawnDepth owner) object char).arena.Fits → r.arena.Fits :=
      Nat.le_trans (Arena.size_le_size_spawn r.arena t owner _)
    refine ⟨hnext, fun hfit {h slots reason} hin hh => ?_, fun hfit {p k} hl hk => ?_⟩
    · rcases Array.mem_push.mp hin with hin | hin
      · exact hr.retired (hbefore hfit) hin (hh.of_start hr.kindred hchar hfit)
      · cases hin
    · obtain ⟨⟨x, hx, hin⟩, hp⟩ :=
        hr.listed (hbefore hfit) hl (hk.of_start hr.kindred hchar hfit)
      obtain ⟨hne, hleft⟩ := hr.kindred.stored.get?_spawn_of_live hfit hx
      refine ⟨⟨_, hleft, List.mem_append_left _ hin⟩, ⟨_, hleft⟩, ?_⟩
      rw [issued_start [] hchar, List.mem_append, List.mem_singleton, not_or]
      exact ⟨hp.2, hne⟩
  modify {r} hr h f hf := by
    have hlist : ∀ {p x}, r.arena.get? p = some x → ∃ y, (r.arena.modify h f).get? p = some y ∧
        y.children = x.children := by
      intro p x hx
      rw [Arena.get?_modify]
      split
      · obtain ⟨cursor, he⟩ := hf x
        exact ⟨f x, by rw [← ‹p = h›, hx, Option.map_some], by rw [he]⟩
      · exact ⟨x, hx, rfl⟩
    have hlasts : ∀ {k}, Lasts s { r with arena := r.arena.modify h f } k → r.Lasts s k := by
      rintro k ⟨⟨y, hy⟩, hnew⟩
      refine ⟨?_, hnew⟩
      rw [Arena.get?_modify] at hy
      split at hy
      · obtain ⟨x, hx, -⟩ := Option.map_eq_some_iff.mp hy
        exact ⟨x, ‹k = h› ▸ hx⟩
      · exact ⟨y, hy⟩
    refine ⟨(keeps_kindred s).modify hr.kindred h f hf, fun hfit {g slots reason} hin hg => ?_,
      fun hfit {p k} hl hk => ?_⟩
    · rw [Arena.Fits, Arena.size_modify] at hfit
      exact hr.retired hfit hin (hlasts hg)
    · rw [Arena.Fits, Arena.size_modify] at hfit
      obtain ⟨⟨x, hx, hin⟩, hp⟩ := hr.listed hfit hl (hlasts hk)
      obtain ⟨y, hy, hchildren⟩ := hlist hx
      exact ⟨⟨y, hy, hchildren ▸ hin⟩, ⟨y, hy⟩, hp.2⟩

/-- With a retired animator go all that were below it. -/
theorem Inherits.not_lasts (hr : r.Inherits s a) (hfit : r.arena.Fits) {g k : Handle} {slots : Nat}
    {reason : RetireReason} (hin : Event.retire g slots reason ∈ r.events)
    (hd : Descends a.slots g k) : ¬ r.Lasts s k := by
  induction hd with
  | refl => exact hr.retired hfit hin
  | tail _ hl ih => exact fun hk => ih (hr.listed hfit hl hk).2

end Run

end SceneReel
