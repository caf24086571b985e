import SceneReel.Proofs.Arena.Rooted
import SceneReel.Proofs.Playback.Cast

/-!
What the frames in a trace report of themselves. Each is a frame of a timeline that its animator was started
with, and the commands of unknown type that it counts are those of that frame. This holds even where the
handles run out.
-/
namespace SceneReel

namespace Arena

variable {a : Arena} {k owner : Handle} {z : Animation} {t : Timeline} {p : Option Handle} {d : Nat}

theorem get?_of_get?_alloc (hz : (a.alloc t p d).2.get? k = some z) :
    (k = (a.alloc t p d).1 ∧ z = { timeline := t, parent := p, depth := d }) ∨
      a.get? k = some z := by
  have hslot := lookup_eq_some_iff.mp hz
  cases hf : a.free with
  | nil =>
    rw [alloc_of_free_nil hf, Array.getElem?_push] at hslot
    split at hslot
    · rename_i hi
      have hsize : a.slots.size < UInt32.size := hi ▸ k.index.toNat_lt
      rw [← toNat_index_push hsize, UInt32.toNat_inj] at hi
      rw [alloc_of_free_nil hf]
      cases k
      simp_all
    · exact .inr (lookup_eq_some_iff.mpr hslot)
  | cons i free =>
    rw [alloc_of_free_cons hf] at hslot
    simp only [store, Array.getElem?_setIfInBounds] at hslot
    split at hslot
    · rename_i hi
      rw [UInt32.toNat_inj] at hi
      split at hslot
      · rw [alloc_of_free_cons hf]
        cases k
        simp_all
      · cases hslot
    · exact .inr (lookup_eq_some_iff.mpr hslot)

/-- Who is live once an animator is spawned is that one, or was live before with the same timeline. -/
theorem timeline_of_get?_spawn (hz : (a.spawn t owner d).2.get? k = some z) :
    (k = (a.spawn t owner d).1 ∧ z.timeline = t) ∨
      ∃ x, a.get? k = some x ∧ z.timeline = x.timeline := by
  have hmodified : ((a.alloc t (some owner) d).2.modify owner fun x =>
      { x with children := x.children ++ [(a.alloc t (some owner) d).1] }).get? k = some z := hz
  have halloc : ∃ y, (a.alloc t (some owner) d).2.get? k = some y ∧ z.timeline = y.timeline := by
    rw [get?_modify] at hmodified
    split at hmodified
    · obtain ⟨y, hy, rfl⟩ := Option.map_eq_some_iff.mp hmodified
      exact ⟨y, ‹k = owner› ▸ hy, rfl⟩
    · exact ⟨z, hmodified, rfl⟩
  obtain ⟨y, hy, he⟩ := halloc
  rcases get?_of_get?_alloc hy with ⟨hk, rfl⟩ | hx
  · exact .inl ⟨hk, he⟩
  · exact .inr ⟨y, hx, he⟩

end Arena

/-- A frame that the event reports is of a timeline of its animator, and counts the commands of unknown
type. -/
def Event.Counts (cast : List (Handle × Timeline)) : Event → Prop
  | .frame e => ∃ t f, (e.animator, t) ∈ cast ∧ t.frames[e.frame]? = some f ∧
      e.unsupported = f.commands.countP (·.command?.isNone)
  | _ => True

theorem Event.Counts.mono {cast cast' : List (Handle × Timeline)} {e : Event} (h : e.Counts cast)
    (hcast : cast ⊆ cast') : e.Counts cast' := by
  cases e with
  | frame e =>
    obtain ⟨t, f, hin, hf⟩ := h
    exact ⟨t, f, hcast hin, hf⟩
  | _ => trivial

variable {s : Setting} {before : List (Handle × Timeline)} {p : Player} {h owner : Handle} {n : Node}
  {r r' : Run} {t : Timeline}

def Run.Staffed (s : Setting) (before : List (Handle × Timeline)) (r : Run) : Prop :=
  ∀ h x, r.arena.get? h = some x → (h, x.timeline) ∈ r.cast s before

theorem Run.keeps_staffed (s : Setting) (before : List (Handle × Timeline)) :
    s.Keeps (Staffed s before) where
  emit hr hchange h x hx := by
    rw [cast_emit hchange]
    exact hr h x hx
  retire hr reason g h y hy := by
    rw [arena_retire] at hy
    obtain ⟨x, hx, -, hxy⟩ := Arena.get?_of_get?_retire hy
    rw [cast_retire, hxy]
    exact hr h x hx
  start {r char t} hr hchar owner object h y hy := by
    rw [cast_start before hchar, List.mem_append, List.mem_singleton]
    rcases Arena.timeline_of_get?_spawn hy with ⟨rfl, rfl⟩ | ⟨x, hx, he⟩
    · exact .inr rfl
    · rw [he]
      exact .inl (hr h x hx)
  modify hr g f hf h y hy := by
    rw [Arena.get?_modify] at hy
    split at hy
    · obtain ⟨x, hx, rfl⟩ := Option.map_eq_some_iff.mp hy
      obtain ⟨k, hk⟩ := hf x
      rw [hk]
      exact hr h x (‹h = g› ▸ hx)
    · exact hr h y hy

/-- Live animators have a timeline that they were started with, and every event counts what it should. -/
structure Run.Counted (s : Setting) (before : List (Handle × Timeline)) (r : Run) : Prop where
  live : ∀ {h x}, r.arena.get? h = some x → (h, x.timeline) ∈ r.cast s before
  events : ∀ e ∈ r.events.toList, e.Counts (r.cast s before)

namespace Run.Counted

theorem staffed (hr : r.Counted s before) : r.Staffed s before :=
  fun _ _ hx => hr.live hx

theorem emit (hr : r.Counted s before) {e : Event} (hchange : e.isChange = false)
    (he : e.Counts (r.cast s before)) : (r.emit e).Counted s before := by
  refine ⟨fun hx => (keeps_staffed s before).emit hr.staffed hchange _ _ hx, fun e' hin => ?_⟩
  rw [cast_emit hchange]
  rw [events_emit, Array.toList_push, List.mem_append, List.mem_singleton] at hin
  rcases hin with hin | rfl
  · exact hr.events e' hin
  · exact he

theorem retire (hr : r.Counted s before) (reason : RetireReason) (g : Handle) :
    (r.retire reason g).Counted s before := by
  refine ⟨fun hy => (keeps_staffed s before).retire hr.staffed reason g _ _ hy, fun e he => ?_⟩
  rw [cast_retire]
  rcases mem_events_retire (Array.mem_toList_iff.mp he) with he | ⟨slots, rfl⟩
  · exact hr.events e (Array.mem_toList_iff.mpr he)
  · trivial

theorem start (hr : r.Counted s before) {char : CharId} (hchar : s.resolve char = some (.timeline t))
    (owner : Handle) (object : ObjectId) :
    (r.start t owner (r.spawnDepth owner) object char).Counted s before := by
  refine ⟨fun hy => (keeps_staffed s before).start hr.staffed hchar owner object _ _ hy,
    fun e he => ?_⟩
  rw [cast_start before hchar]
  rw [Run.start, events_emit, Array.toList_push, List.mem_append, List.mem_singleton] at he
  rcases he with he | rfl
  · exact (hr.events e he).mono (List.subset_append_left _ _)
  · trivial

theorem modify (hr : r.Counted s before) (h : Handle) {f : Animation → Animation}
    (hf : ∀ x, ∃ k, f x = { x with cursor := k }) :
    Run.Counted s before { r with arena := r.arena.modify h f } :=
  ⟨fun hy => (keeps_staffed s before).modify hr.staffed h f hf _ _ hy, hr.events⟩

end Run.Counted

section Playing

variable (ho : p.Obeys s) (hp : p.Keeps (Run.Counted s before))
include hp

theorem spawn_counted (hr : r.Counted s before) (owner : Handle) {char : CharId} (n : Node)
    (hchar : s.resolve char = some (.timeline t)) :
    (spawn s p owner char t n r).2.Counted s before := by
  by_cases hd : s.options.maxNestingDepth < r.spawnDepth owner
  · rw [spawn_of_lt hd]
    exact hr.emit rfl trivial
  · rw [spawn_of_le (Nat.le_of_not_lt hd)]
    exact hp _ _ (hr.start hchar owner n.id)

theorem settle_counted (hr : r.Counted s before) (owner : Handle) (c : Command) (n : Node) :
    (c.settle s p owner n r).Counted s before := by
  cases c with
  | place char object sibling m =>
    show (Command.enter s p owner char object m r).2.Counted s before
    unfold Command.enter
    split
    · exact spawn_counted hp hr owner _ ‹_›
    · exact hr
  | remove object =>
    show (List.foldl _ r _).Counted s before
    generalize (n.children.filter (·.id = object)).filterMap Node.animator? = gs
    induction gs generalizing r with
    | nil => exact hr
    | cons g gs ih => exact ih (hr.retire .removed g)
  | _ => exact hr

theorem executeAll_counted (hr : r.Counted s before) (h : Handle) (cs : List Command) (n : Node) :
    (Command.executeAll s p h cs n r).2.Counted s before := by
  induction cs generalizing n r with
  | nil => exact hr
  | cons c cs ih =>
    rw [Command.executeAll_cons]
    have hreport := (settle_counted hp hr h c n).emit
      (e := .command h c.kind c.object (c.execute s p h n r).1) rfl trivial
    exact ih hreport _

theorem playChildren_counted (hr : r.Counted s before) (gs : List Handle) (n : Node) :
    (playChildren s p gs n r).2.Counted s before := by
  induction gs generalizing n r with
  | nil => exact hr
  | cons g gs ih =>
    rw [playChildren]
    split
    · rename_i target run heq
      obtain ⟨pre, c, post, -, -, -, rfl⟩ := Node.updateChild?_eq_some heq
      exact ih (hp g c hr) _
    · refine ih ?_ _
      split
      · exact hr.retire .detached g
      · exact hr

/-- The frame that is reported is one of the timeline, which the animator was started with. -/
theorem playFrame_counted (hr : r.Counted s before) (ht : (h, t) ∈ r.cast s before) (n : Node) :
    (playFrame s p h t n r).2.Counted s before := by
  cases hx : r.arena.get? h with
  | none =>
    rw [playFrame_of_dead s p hx]
    exact hr
  | some x =>
    have hseek : ∀ k, (r.seek h k).Counted s before := fun k => hr.modify h fun _ => ⟨k, rfl⟩
    cases hframe : t.frames[if x.cursor = t.frameCount then 0 else x.cursor]? with
    | none =>
      rw [playFrame_of_none s p hx hframe]
      exact hseek _
    | some frame =>
      rw [playFrame_eq s p hx hframe]
      refine (executeAll_counted hp ((hseek _).emit rfl ?_) h _ n).modify h fun x => ⟨x.cursor + 1, rfl⟩
      exact ⟨t, frame, ht, hframe, rfl⟩

include ho

theorem playStep_counted : (playStep s p).Keeps (Run.Counted s before) := by
  intro h n r hr
  cases hx : r.arena.get? h with
  | none =>
    rw [playStep_of_dead s p hx]
    exact hr
  | some x =>
    by_cases hcount : x.timeline.frameCount = 0
    · rw [playStep_of_empty s p hx hcount]
      exact hr
    · rw [playStep_eq s p hx hcount]
      have hlater : Run.Later r (playChildren s p x.children n r).2 :=
        playChildren_keeps (Run.keeps_later s r) (ho _ (Run.keeps_later s r)) _ n (.refl r)
      exact playFrame_counted hp (playChildren_counted hp hr x.children n)
        ((hlater.cast_sublist s before).subset (hr.live hx)) _

end Playing

theorem playChain_counted (s : Setting) (before : List (Handle × Timeline)) (m : Nat) :
    (playChain s idle m).Keeps (Run.Counted s before) := by
  induction m with
  | zero => exact fun _ _ _ hr => hr
  | succ m ih => exact playStep_counted (playChain_obeys s m) ih

end SceneReel
