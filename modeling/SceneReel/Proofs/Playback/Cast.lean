import SceneReel.Proofs.Arena.Generations
import SceneReel.Proofs.Playback.Players

/-!
The animators that playback has started, each with its timeline. No run starts two of one handle, as long
as the arena has an index for each slot and a generation for each animator of a slot.
-/
namespace SceneReel

/-- The animators that events report to have started, with the timelines of their characters. -/
def started (resolve : CharId → Option Resolved) (events : List Event) : List (Handle × Timeline) :=
  events.filterMap fun
    | .spawn _ child _ char =>
      match resolve char with
      | some (.timeline t) => some (child, t)
      | _ => none
    | _ => none

theorem started_append (resolve : CharId → Option Resolved) (events events' : List Event) :
    started resolve (events ++ events') = started resolve events ++ started resolve events' :=
  List.filterMap_append

def offspring (h : Handle) (events : List Event) : List Handle :=
  events.filterMap fun
    | .spawn parent child _ _ => if parent = h then some child else none
    | _ => none

theorem offspring_append (h : Handle) (events events' : List Event) :
    offspring h (events ++ events') = offspring h events ++ offspring h events' :=
  List.filterMap_append

/-- An arena has an index for each slot, and a generation for each animator that a slot has had. -/
def Sparing (a : Arena) (cast : List (Handle × Timeline)) : Prop :=
  a.Fits ∧ ∀ i, cast.countP (·.1.index = i) ≤ UInt32.size

theorem sparing_of_length {a : Arena} {cast : List (Handle × Timeline)} (hfit : a.Fits)
    (hlen : cast.length ≤ UInt32.size) : Sparing a cast :=
  ⟨hfit, fun _ => List.countP_le_length.trans hlen⟩

theorem Sparing.mono {a a' : Arena} {cast cast' : List (Handle × Timeline)}
    (h : Sparing a' cast') (hsize : a.slots.size ≤ a'.slots.size) (hcast : cast.Sublist cast') :
    Sparing a cast :=
  ⟨Nat.le_trans hsize h.1, fun i => (hcast.countP_le).trans (h.2 i)⟩

namespace Run

/-- The animators started up to a point of a run, after those started before it. -/
def cast (s : Setting) (before : List (Handle × Timeline)) (r : Run) : List (Handle × Timeline) :=
  before ++ started s.resolve r.events.toList

variable {s : Setting} {before : List (Handle × Timeline)} {r r' : Run}

theorem cast_emit {e : Event} (he : e.isChange = false) :
    (r.emit e).cast s before = r.cast s before := by
  cases e with
  | spawn parent child object char => cases he
  | _ => simp [cast, started]

@[simp] theorem cast_retire (reason : RetireReason) (h : Handle) :
    (r.retire reason h).cast s before = r.cast s before := by
  unfold cast
  rcases r.events_retire reason h with he | ⟨slots, he⟩ <;> simp [he, started]

theorem cast_start (before : List (Handle × Timeline)) {char : CharId} {t : Timeline}
    (hchar : s.resolve char = some (.timeline t))
    (owner : Handle) (d : Nat) (object : ObjectId) :
    (r.start t owner d object char).cast s before =
      r.cast s before ++ [((r.arena.spawn t owner d).1, t)] := by
  simp [cast, start, started, hchar]

/-- A later point of a run: it has all slots and events of the earlier one. -/
structure Later (r r' : Run) : Prop where
  slots : r.arena.slots.size ≤ r'.arena.slots.size
  events : r.events.toList <+: r'.events.toList

theorem Later.refl (r : Run) : Later r r :=
  ⟨Nat.le_refl _, List.prefix_refl _⟩

theorem Later.trans {r'' : Run} (h : Later r r') (h' : Later r' r'') : Later r r'' :=
  ⟨h.slots.trans h'.slots, h.events.trans h'.events⟩

theorem keeps_later (s : Setting) (r : Run) : s.Keeps (Later r) where
  emit hr _ := ⟨hr.slots, hr.events.trans (by simp)⟩
  retire {r'} hr reason h := by
    refine ⟨?_, hr.events.trans ?_⟩
    · rw [arena_retire, Arena.size_retire]
      exact hr.slots
    · rcases r'.events_retire reason h with he | ⟨slots, he⟩ <;> simp [he]
  start hr _ owner object :=
    ⟨hr.slots.trans (Arena.size_le_size_spawn _ _ _ _), hr.events.trans (by simp [start])⟩
  modify hr h f _ := ⟨by simpa using hr.slots, hr.events⟩

theorem Later.cast_sublist (hr : Later r r') (s : Setting) (before : List (Handle × Timeline)) :
    (r.cast s before).Sublist (r'.cast s before) :=
  (hr.events.sublist.filterMap _).append_left before

def Sparing (s : Setting) (before : List (Handle × Timeline)) (r : Run) : Prop :=
  SceneReel.Sparing r.arena (r.cast s before)

theorem Sparing.earlier (h : r'.Sparing s before) (hr : Later r r') : r.Sparing s before :=
  h.mono hr.slots (hr.cast_sublist s before)

/-- The arena is sound, and has given out the handles of those started, slot by slot. -/
structure Accounted (s : Setting) (before : List (Handle × Timeline)) (r : Run) : Prop where
  stored : r.arena.Stored
  numbered : r.arena.Fits → r.arena.Numbered ((r.cast s before).map Prod.fst)

theorem keeps_accounted (s : Setting) (before : List (Handle × Timeline)) :
    s.Keeps (Accounted s before) where
  emit hr he := ⟨hr.stored, by rw [cast_emit he]; exact hr.numbered⟩
  retire {r} hr reason h := by
    refine ⟨?_, fun hfit => ?_⟩
    · rw [arena_retire]
      exact hr.stored.retire h
    · rw [arena_retire, Arena.Fits, Arena.size_retire] at hfit
      rw [arena_retire, cast_retire]
      exact (hr.numbered hfit).congr (Arena.generations_retire _ _)
  start {r char t} hr hchar owner object := by
    refine ⟨(hr.stored.alloc _ _ _).modify owner _, fun hfit => ?_⟩
    have hfit' := Nat.le_trans (Arena.size_le_size_spawn r.arena t owner _) hfit
    rw [cast_start before hchar, List.map_append]
    exact (hr.numbered hfit').spawn hr.stored hfit
  modify hr h f _ := by
    refine ⟨hr.stored.modify h f, fun hfit => ?_⟩
    rw [Arena.Fits, Arena.size_modify] at hfit
    exact (hr.numbered hfit).congr (Arena.generations_modify _ h f)

theorem Accounted.nodup (hr : r.Accounted s before) (hspare : r.Sparing s before) :
    ((r.cast s before).map Prod.fst).Nodup := by
  refine (hr.numbered hspare.1).nodup fun i => ?_
  rw [List.countP_map]
  exact hspare.2 i

/-- A new animator gets a handle that was not given out before. -/
theorem Accounted.fresh (hr : r.Accounted s before) {char : CharId} {t : Timeline}
    (hchar : s.resolve char = some (.timeline t)) (owner : Handle) (object : ObjectId)
    (hspare : (r.start t owner (r.spawnDepth owner) object char).Sparing s before) :
    (r.arena.spawn t owner (r.spawnDepth owner)).1 ∉ (r.cast s before).map Prod.fst := by
  have hnodup := ((keeps_accounted s before).start hr hchar owner object).nodup hspare
  rw [cast_start before hchar, List.map_append, List.nodup_append] at hnodup
  exact fun hin => hnodup.2.2 _ hin _ List.mem_cons_self rfl

def issued (s : Setting) (before : List (Handle × Timeline)) (r : Run) : List Handle :=
  (r.cast s before).map Prod.fst

theorem Later.issued_subset (hr : Later r r') : r.issued s before ⊆ r'.issued s before :=
  ((hr.cast_sublist s before).map Prod.fst).subset

theorem issued_start (before : List (Handle × Timeline)) {char : CharId} {t : Timeline}
    (hchar : s.resolve char = some (.timeline t))
    (owner : Handle) (d : Nat) (object : ObjectId) :
    (r.start t owner d object char).issued s before =
      r.issued s before ++ [(r.arena.spawn t owner d).1] := by
  rw [issued, cast_start before hchar, List.map_append]
  rfl

theorem Accounted.mem_issued (hr : r.Accounted s before) (hspare : r.Sparing s before) {k : Handle}
    {x : Animation} (hx : r.arena.get? k = some x) : k ∈ r.issued s before :=
  (hr.numbered hspare.1).mem_of_live hx

/-- Who is live at a later point of a run was so before, or was started since by another. -/
def Succeeds (s : Setting) (before : List (Handle × Timeline)) (r r' : Run) : Prop :=
  ∀ k y, r'.arena.get? k = some y →
    (∃ x, r.arena.get? k = some x ∧
      y.timeline = x.timeline ∧ y.parent = x.parent ∧ y.depth = x.depth) ∨
    k ∉ r.issued s before ∧ ∃ owner, y.parent = some owner

/-- The animators that were live before are those whose handles were given out before. -/
theorem Succeeds.of_issued (h : Succeeds s before r r') {k : Handle} {y : Animation}
    (hy : r'.arena.get? k = some y) (hk : k ∈ r.issued s before) :
    ∃ x, r.arena.get? k = some x ∧
      y.timeline = x.timeline ∧ y.parent = x.parent ∧ y.depth = x.depth :=
  (h k y hy).resolve_right fun hnew => hnew.1 hk

theorem keeps_succeeds (s : Setting) (before : List (Handle × Timeline)) (r : Run) :
    s.Keeps fun r' => r'.Accounted s before ∧ Later r r' ∧
      (r'.Sparing s before → Succeeds s before r r') where
  emit hr he := by
    obtain ⟨haccounted, hlater, hsucceeds⟩ := hr
    refine ⟨(keeps_accounted s before).emit haccounted he, (keeps_later s r).emit hlater he,
      fun hspare => hsucceeds ?_⟩
    rwa [Sparing, cast_emit he] at hspare
  retire {r'} hr reason h := by
    obtain ⟨haccounted, hlater, hsucceeds⟩ := hr
    have hnext := (keeps_later s r').retire (.refl r') reason h
    refine ⟨(keeps_accounted s before).retire haccounted reason h,
      (keeps_later s r).retire hlater reason h, fun hspare k y hy => ?_⟩
    rw [arena_retire] at hy
    obtain ⟨x, hx, -, he⟩ := Arena.get?_of_get?_retire hy
    have hold := hsucceeds (hspare.earlier hnext) k x hx
    rwa [he]
  start {r' char t} hr hchar owner object := by
    obtain ⟨haccounted, hlater, hsucceeds⟩ := hr
    have hnext := (keeps_later s _).start (.refl r') hchar owner object
    refine ⟨(keeps_accounted s before).start haccounted hchar owner object,
      (keeps_later s r).start hlater hchar owner object, fun hspare k y hy => ?_⟩
    have hfresh := haccounted.fresh hchar owner object hspare
    rw [arena_start] at hy
    rcases haccounted.stored.get?_of_get?_spawn hspare.1 hy with ⟨rfl, he, -⟩ | ⟨x, hx, he⟩
    · exact .inr ⟨fun hk => hfresh (hlater.issued_subset hk), owner, by rw [he]⟩
    · have hold := hsucceeds (hspare.earlier hnext) k x hx
      rwa [he]
  modify {r'} hr h f hf := by
    obtain ⟨haccounted, hlater, hsucceeds⟩ := hr
    have hnext := (keeps_later s _).modify (.refl r') h f hf
    refine ⟨(keeps_accounted s before).modify haccounted h f hf,
      (keeps_later s r).modify hlater h f hf, fun hspare k y hy => ?_⟩
    rw [Arena.get?_modify] at hy
    split at hy
    · obtain ⟨x, hx, rfl⟩ := Option.map_eq_some_iff.mp hy
      obtain ⟨cursor, he⟩ := hf x
      have hold := hsucceeds (hspare.earlier hnext) k x (‹k = h› ▸ hx)
      rwa [he]
    · exact hsucceeds (hspare.earlier hnext) k y hy

theorem Accounted.succeeds (hr : r.Accounted s before) : r.Accounted s before ∧ Later r r ∧
    (r.Sparing s before → Succeeds s before r r) :=
  ⟨hr, .refl r, fun _ _ y hy => .inl ⟨y, hy, rfl, rfl, rfl⟩⟩

/-- An animator lists its children in the order in which they were started. -/
structure InOrder (before : List Event) (r : Run) : Prop where
  stored : r.arena.Stored
  sublist : r.arena.Fits → ∀ {h x}, r.arena.get? h = some x →
    x.children.Sublist (offspring h (before ++ r.events.toList))

theorem keeps_inOrder (s : Setting) (before : List Event) : s.Keeps (InOrder before) where
  emit {r e} hr he := by
    refine ⟨hr.stored, fun hfit {h x} hx => (hr.sublist hfit hx).trans ?_⟩
    exact (List.Sublist.append_left (by simp) before).filterMap _
  retire {r} hr reason h := by
    refine ⟨?_, fun hfit {k y} hy => ?_⟩
    · rw [arena_retire]
      exact hr.stored.retire h
    · rw [arena_retire, Arena.Fits, Arena.size_retire] at hfit
      rw [arena_retire] at hy
      obtain ⟨x, hx, hsub, -⟩ := Arena.get?_of_get?_retire hy
      have hevents := ((keeps_later s r).retire (.refl r) reason h).events.sublist
      exact (hsub.trans (hr.sublist hfit hx)).trans ((hevents.append_left before).filterMap _)
  start {r char t} hr _ owner object := by
    refine ⟨(hr.stored.alloc _ _ _).modify owner _, fun hfit {k y} hy => ?_⟩
    have hfit' := Nat.le_trans (Arena.size_le_size_spawn r.arena t owner _) hfit
    rw [arena_start] at hy
    obtain ⟨l, hl, hchildren⟩ := hr.stored.children_of_get?_spawn hfit hy
    have hlist : l.Sublist (offspring k (before ++ r.events.toList)) := by
      rcases hl with rfl | ⟨x, hx, rfl⟩
      · exact List.nil_sublist _
      · exact hr.sublist hfit' hx
    have hnext : offspring k (before ++ (r.start t owner (r.spawnDepth owner) object char).events.toList) =
        offspring k (before ++ r.events.toList) ++
          if k = owner then [(r.arena.spawn t owner (r.spawnDepth owner)).1] else [] := by
      rw [start, events_emit, Array.toList_push, ← List.append_assoc, offspring_append]
      by_cases hk : k = owner <;> simp [offspring, hk, eq_comm]
    rw [hchildren, hnext]
    exact hlist.append_right _
  modify {r} hr h f hf := by
    refine ⟨hr.stored.modify h f, fun hfit {k y} hy => ?_⟩
    rw [Arena.Fits, Arena.size_modify] at hfit
    rw [Arena.get?_modify] at hy
    split at hy
    · obtain ⟨x, hx, rfl⟩ := Option.map_eq_some_iff.mp hy
      obtain ⟨cursor, he⟩ := hf x
      have hsub := hr.sublist hfit hx
      rw [he, ‹k = h›]
      exact hsub
    · exact hr.sublist hfit hy

end Run

/-- A player does nothing to a run but what playback does. -/
def Player.Obeys (s : Setting) (p : Player) : Prop :=
  ∀ P, s.Keeps P → p.Keeps P

namespace Player.Obeys

variable {s : Setting} {before : List (Handle × Timeline)} {p : Player} {r : Run}

theorem later (hp : p.Obeys s) (h : Handle) (n : Node) (r : Run) : Run.Later r (p h n r).2 :=
  hp _ (Run.keeps_later s r) h n (.refl r)

theorem accounted (hp : p.Obeys s) (h : Handle) (n : Node) (hr : r.Accounted s before) :
    (p h n r).2.Accounted s before :=
  hp _ (Run.keeps_accounted s before) h n hr

theorem succeeds (hp : p.Obeys s) (h : Handle) (n : Node) (hr : r.Accounted s before)
    (hspare : (p h n r).2.Sparing s before) : Run.Succeeds s before r (p h n r).2 :=
  (hp _ (Run.keeps_succeeds s before r) h n hr.succeeds).2.2 hspare

end Player.Obeys

theorem playChain_obeys (s : Setting) (n : Nat) : (playChain s idle n).Obeys s :=
  fun _ hs => playChain_keeps hs n

end SceneReel
