import Mathlib.Algebra.Group.Nat.Defs
import SceneReel.Animator.Basic
import SceneReel.Proofs.Arena.Operations
import SceneReel.Proofs.Playback.Players

/-!
A timeline that places two clips of itself. At each level of nesting there are twice as many, and none of
them leaves, so that they use up the indices of slots. The next clip to start then shares the handle of the
last one, and plays that in its place. The levels remain symbolic; no such tree is evaluated.
-/
namespace SceneReel

open Node (At)

namespace Arena

variable {a : Arena}

/-- The handle of the last slot, where that never changed hands. -/
def lastHandle (a : Arena) : Handle :=
  ⟨UInt32.ofNat (a.slots.size - 1), 0⟩

theorem lastHandle_congr {b : Arena} (hsize : a.slots.size = b.slots.size) :
    a.lastHandle = b.lastHandle := by
  rw [lastHandle, lastHandle, hsize]

theorem spawn_of_free_nil (hf : a.free = []) (t : Timeline) (owner : Handle) (d : Nat) :
    (a.spawn t owner d).1 = ⟨UInt32.ofNat (min a.slots.size (UInt32.size - 1)), 0⟩ ∧
      (a.spawn t owner d).2.free = [] ∧ (a.spawn t owner d).2.slots.size = a.slots.size + 1 := by
  simp [spawn, alloc_of_free_nil hf, hf]

theorem lastHandle_spawn (hf : a.free = []) (t : Timeline) (owner : Handle) (d : Nat)
    (hroom : a.slots.size < UInt32.size) :
    (a.spawn t owner d).2.lastHandle = (a.spawn t owner d).1 := by
  obtain ⟨hnew, -, hsize⟩ := spawn_of_free_nil hf t owner d
  rw [hnew, lastHandle, hsize, Nat.min_eq_left (by omega)]
  rfl

/-- Where all indices are used up, the last handle is given out again, to find what it found before. -/
theorem spawn_of_full (hf : a.free = []) (hfull : a.slots.size = UInt32.size) (t : Timeline)
    (owner : Handle) (d : Nat) : (a.spawn t owner d).1 = a.lastHandle ∧
      ∀ k x, k ≠ owner → a.get? k = some x → (a.spawn t owner d).2.get? k = some x := by
  refine ⟨?_, fun k x hk hx => ?_⟩
  · rw [(spawn_of_free_nil hf t owner d).1, hfull, lastHandle, hfull]
    rfl
  · simp only [spawn, alloc_of_free_nil hf]
    rw [get?_modify, if_neg hk]
    have hs := lookup_eq_some_iff.mp hx
    have hi : k.index.toNat < a.slots.size := (Array.getElem?_eq_some_iff.mp hs).1
    rw [get?, lookup_eq_some_iff, Array.getElem?_push, if_neg (by omega), hs]

end Arena

section Player

variable {s : Setting} {p : Player} {h owner : Handle} {x : Animation} {n : Node} {r : Run}

/-- A frame on a node without children, where that makes no animator retire: the plan is the frame. -/
theorem playStep_on_bare {frame : Frame} (hx : r.arena.get? h = some x)
    (hframe : x.timeline.frames[x.cursor]? = some frame)
    (hquiet : s.options.retireDetached = false ∨ x.children = []) (hn : n.children = []) :
    ∃ f : FrameEvent, f.animator = h ∧ playStep s p h n r =
      let out := Command.executeAll s p h (Plan.steps [] frame.commands) n
        ((r.seek h x.cursor).emit (.frame f))
      (out.1, out.2.advance h) := by
  have hlt : x.cursor < x.timeline.frameCount := (List.getElem?_eq_some_iff.mp hframe).1
  have hcursor : (if x.cursor = x.timeline.frameCount then 0 else x.cursor) = x.cursor :=
    if_neg (Nat.ne_of_lt hlt)
  have hlooped : (x.cursor == x.timeline.frameCount) = false := beq_eq_false_iff_ne.mpr (by omega)
  have hids : n.childIds = [] := by rw [Node.childIds, hn, List.map_nil]
  have hnone : playChildren s p x.children n r = (n, r) := by
    rw [playChildren_of_bare s p (by simp [hn])]
    rcases hquiet with hoff | hempty
    · rw [if_neg (Bool.eq_false_iff.mp hoff)]
    · rw [hempty, List.foldl_nil, ite_self]
  rw [playStep_eq s p hx (Nat.ne_zero_of_lt hlt)]
  dsimp only
  rw [hnone, playFrame_eq s p hx (by rwa [hcursor])]
  dsimp only
  rw [hcursor, hlooped, hids]
  exact ⟨_, rfl, rfl⟩

theorem executeAll_place (char : CharId) (object : ObjectId) (m : Geometry.Matrix)
    (cs : List Command) (n : Node) (r : Run) :
    ∃ e, e.isChange = false ∧ Command.executeAll s p h (.place char object none m :: cs) n r =
      Command.executeAll s p h cs
        { n with children := n.children ++ [(Command.enter s p h char object m r).1] }
        ((Command.enter s p h char object m r).2.emit e) := by
  rw [Command.executeAll_cons]
  exact ⟨_, rfl, rfl⟩

end Player

/-- A timeline that first places two clips, and nothing then. -/
def doubling : Timeline :=
  ⟨[⟨[.known (.place ⟨1⟩ ⟨1⟩ none .identity), .known (.place ⟨1⟩ ⟨2⟩ none .identity)]⟩, {}]⟩

def pair : List Command :=
  [.place ⟨1⟩ ⟨1⟩ none .identity, .place ⟨1⟩ ⟨2⟩ none .identity]

/-- Further slots are in use, and the animators that were live are as before, up to the list of one. -/
structure Uses (owner : Handle) (used : Nat) (r r' : Run) : Prop where
  wellFormed : r'.arena.WellFormed
  free : r'.arena.free = []
  size : r'.arena.slots.size = r.arena.slots.size + used
  kept : ∀ k y, r.arena.get? k = some y → ∃ l, (k ≠ owner → l = y.children) ∧
    r'.arena.get? k = some { y with children := l }

/-- The last animator is as deep as clips nest, and has played its first frame on a node that has
children. -/
structure Deepest (limit : Nat) (n : Node) (r : Run) : Prop where
  last : ∃ parent, r.arena.get? r.arena.lastHandle = some
    { timeline := doubling, cursor := 1, parent := parent, depth := limit }
  played : ∃ f, .frame f ∈ r.events ∧ f.animator = r.arena.lastHandle
  shown : ∃ d m, At n d m ∧ m.animator? = some r.arena.lastHandle ∧ m.children ≠ []

section Doubling

variable {s : Setting} {p : Player} {owner child : Handle} {x : Animation} {r r' r'' : Run} {n : Node}
  {used used' limit : Nat}

theorem Uses.refl (hw : r.arena.WellFormed) (hfree : r.arena.free = []) (owner : Handle) :
    Uses owner 0 r r :=
  ⟨hw, hfree, rfl, fun _ y hy => ⟨y.children, fun _ => rfl, hy⟩⟩

theorem Uses.trans (h : Uses owner used r r') (h' : Uses owner used' r' r'') :
    Uses owner (used + used') r r'' where
  wellFormed := h'.wellFormed
  free := h'.free
  size := by rw [h'.size, h.size, Nat.add_assoc]
  kept k y hy := by
    obtain ⟨l, hl, hy'⟩ := h.kept k y hy
    obtain ⟨l', hl', hy''⟩ := h'.kept k _ hy'
    exact ⟨l', fun hk => (hl' hk).trans (hl hk), hy''⟩

theorem Uses.emit (h : Uses owner used r r') (e : Event) : Uses owner used r (r'.emit e) :=
  ⟨h.wellFormed, h.free, h.size, h.kept⟩

theorem Deepest.emit (h : Deepest limit n r) (e : Event) : Deepest limit n (r.emit e) where
  last := h.last
  played := by
    obtain ⟨f, hf, hlast⟩ := h.played
    exact ⟨f, Array.mem_push_of_mem e hf, hlast⟩
  shown := h.shown

theorem executeAll_pair (owner : Handle) (n : Node) (r : Run) : ∃ e e',
    let first := Command.enter s p owner ⟨1⟩ ⟨1⟩ .identity r
    let second := Command.enter s p owner ⟨1⟩ ⟨2⟩ .identity (first.2.emit e)
    Command.executeAll s p owner pair n r =
      ({ n with children := n.children ++ [first.1] ++ [second.1] }, second.2.emit e') := by
  obtain ⟨e, -, he⟩ := executeAll_place (s := s) (p := p) (h := owner) ⟨1⟩ ⟨1⟩ .identity
    [.place ⟨1⟩ ⟨2⟩ none .identity] n r
  obtain ⟨e', -, he'⟩ := executeAll_place (s := s) (p := p) (h := owner) ⟨1⟩ ⟨2⟩ .identity []
    { n with children := n.children ++ [(Command.enter s p owner ⟨1⟩ ⟨1⟩ .identity r).1] }
    ((Command.enter s p owner ⟨1⟩ ⟨1⟩ .identity r).2.emit e)
  exact ⟨e, e', he.trans he'⟩

theorem enter_deep (hchar : s.resolve ⟨1⟩ = some (.timeline doubling))
    (hx : r.arena.get? owner = some x) (hdeep : s.options.maxNestingDepth ≤ x.depth)
    (object : ObjectId) (mat : Geometry.Matrix) :
    ∃ e, (Command.enter s p owner ⟨1⟩ object mat r).2 = r.emit e := by
  have hdepth : r.spawnDepth owner = x.depth + 1 := by rw [Run.spawnDepth, hx]
  rw [enter_of_timeline hchar, spawn_of_lt (by omega)]
  exact ⟨_, rfl⟩

/-- A clip has started in a slot of its own, and reported its first frame. -/
structure Opened (owner : Handle) (level : Nat) (r : Run) (child : Handle) (r' : Run) : Prop where
  uses : Uses owner 1 r r'
  last : r'.arena.lastHandle = child
  fresh : r.arena.get? child = none
  live : r'.arena.get? child =
    some { timeline := doubling, parent := some owner, depth := level + 1 }
  played : ∃ f, .frame f ∈ r'.events ∧ f.animator = child

theorem enter_opens (hchar : s.resolve ⟨1⟩ = some (.timeline doubling)) (hw : r.arena.WellFormed)
    (hfree : r.arena.free = []) (hx : r.arena.get? owner = some x)
    (hlevel : x.depth < s.options.maxNestingDepth) (hroom : r.arena.slots.size < UInt32.size)
    (m : Nat) (object : ObjectId) (mat : Geometry.Matrix) :
    ∃ child n r', Opened owner x.depth r child r' ∧ n.children = [] ∧ n.animator? = some child ∧
      Command.enter s (playChain s idle (m + 1)) owner ⟨1⟩ object mat r =
        let out := Command.executeAll s (playChain s idle m) child pair n r'
        (out.1, out.2.advance child) := by
  obtain ⟨-, hfree', hsize⟩ := Arena.spawn_of_free_nil hfree doubling owner (x.depth + 1)
  have hlast := Arena.lastHandle_spawn hfree doubling owner (x.depth + 1) hroom
  have hfit : (r.arena.spawn doubling owner (x.depth + 1)).2.Fits := by
    rw [Arena.Fits, hsize]
    exact hroom
  have hw' := hw.spawn hx hfit
  obtain ⟨hfresh, hget⟩ := hw.get?_spawn hx hfit
  have hnew := (hget _).trans (if_pos rfl)
  have hkept := fun {k y} (hy : r.arena.get? k = some y) => hw.stored.get?_spawn_of_live hfit hy
  have hdepth : r.spawnDepth owner = x.depth + 1 := by rw [Run.spawnDepth, hx]
  rw [enter_of_timeline hchar, spawn_of_le (by omega), hdepth, playChain]
  generalize (r.arena.spawn doubling owner (x.depth + 1)).1 = child at *
  have hstarted : (r.start doubling owner (x.depth + 1) object ⟨1⟩).arena.get? child = _ := hnew
  obtain ⟨f, hf, hplay⟩ := playStep_on_bare (s := s) (p := playChain s idle m)
    (n := { id := object, kind := .clip ⟨1⟩ (some child), transform := mat.decompose })
    hstarted rfl (.inr rfl) rfl
  rw [hplay]
  refine ⟨child, _, _, ?_, rfl, rfl, rfl⟩
  exact {
    uses := {
      wellFormed := hw'.modify child fun y => ⟨rfl, rfl, rfl⟩
      free := (Arena.free_modify _ _ _).trans hfree'
      size := (Arena.size_modify _ _ _).trans hsize
      kept := fun k y hy => ⟨_, fun hk => by rw [if_neg hk, List.append_nil],
        (Arena.get?_modify _ _ _ _).trans ((if_neg (hkept hy).1).trans (hkept hy).2)⟩ }
    last := (Arena.lastHandle_congr (Arena.size_modify _ _ _)).trans hlast
    fresh := hfresh
    live := Run.get?_seek hstarted 0
    played := ⟨f, Array.mem_push_self, hf⟩ }

theorem Opened.finish {level : Nat} (ho : Opened owner level r child r')
    (h : Uses child used r' r'') : Uses owner (1 + used) r (r''.advance child) where
  wellFormed := h.wellFormed.modify child fun y => ⟨rfl, rfl, rfl⟩
  free := (Arena.free_modify _ _ _).trans h.free
  size := by rw [Run.size_advance, h.size, ho.uses.size, Nat.add_assoc]
  kept k y hy := by
    have hk : k ≠ child := by
      rintro rfl
      rw [ho.fresh] at hy
      cases hy
    obtain ⟨l, hl, hy'⟩ := ho.uses.kept k y hy
    obtain ⟨l', hl', hy''⟩ := h.kept k _ hy'
    refine ⟨l', fun hne => (hl' hk).trans (hl hne), ?_⟩
    rw [Run.get?_advance_of_ne _ hk, hy'']

/-- The clip that started is the last one, if none started below it. -/
theorem Opened.deepest {level : Nat} (ho : Opened owner level r child r') (hlevel : level + 1 = limit)
    (harena : r''.arena = r'.arena) (hevents : r'.events.toList <+: r''.events.toList)
    (hg : n.animator? = some child) (hn : n.children ≠ []) :
    Deepest limit n (r''.advance child) := by
  have hlast : (r''.advance child).arena.lastHandle = child := by
    rw [← ho.last]
    refine Arena.lastHandle_congr ?_
    rw [Run.size_advance, harena]
  refine ⟨?_, ?_, ?_⟩ <;> rw [hlast]
  · have hlive := ho.live
    rw [← harena, hlevel] at hlive
    exact ⟨some owner, Run.get?_advance hlive⟩
  · obtain ⟨f, hf, hchild⟩ := ho.played
    rw [← Array.mem_toList_iff] at hf
    exact ⟨f, Array.mem_toList_iff.mp (hevents.subset hf), hchild⟩
  · exact ⟨0, n, .root, hg, hn⟩

theorem Deepest.above {c : Node} (h : Deepest limit c r) (hx : r.arena.get? child = some x)
    (hdepth : x.depth < limit) (hc : c ∈ n.children) : Deepest limit n (r.advance child) := by
  obtain ⟨parent, hlast⟩ := h.last
  have hne : r.arena.lastHandle ≠ child := by
    intro he
    rw [he, hx] at hlast
    cases hlast
    exact Nat.lt_irrefl _ hdepth
  have hsame : (r.advance child).arena.lastHandle = r.arena.lastHandle :=
    Arena.lastHandle_congr (Run.size_advance r child)
  refine ⟨⟨parent, ?_⟩, ?_, ?_⟩ <;> rw [hsame]
  · rw [Run.get?_advance_of_ne _ hne, hlast]
  · exact h.played
  · obtain ⟨d, m, hm, hlast⟩ := h.shown
    exact ⟨d + 1, m, .of_child hc hm, hlast⟩

/-- A clip with `e` levels of nesting left uses as many slots as a full binary tree of that height has
nodes. -/
theorem enter_doubling (hchar : s.resolve ⟨1⟩ = some (.timeline doubling)) (e : Nat) {m : Nat} (hm : e < m)
    (hw : r.arena.WellFormed) (hfree : r.arena.free = []) (hx : r.arena.get? owner = some x)
    (hlevel : x.depth + 1 + e = s.options.maxNestingDepth)
    (hroom : r.arena.slots.size + 2 ^ (e + 1) ≤ UInt32.size + 1) (object : ObjectId)
    (mat : Geometry.Matrix) :
    let out := Command.enter s (playChain s idle m) owner ⟨1⟩ object mat r
    ∃ used, used + 1 = 2 ^ (e + 1) ∧ Uses owner used r out.2 ∧
      Deepest s.options.maxNestingDepth out.1 out.2 := by
  induction e generalizing m owner x r object mat with
  | zero =>
    obtain ⟨m, rfl⟩ := Nat.exists_eq_add_one_of_ne_zero (Nat.ne_of_gt hm)
    obtain ⟨child, n, r', ho, -, hg, heq⟩ :=
      enter_opens hchar hw hfree hx (by omega) (by omega) m object mat
    obtain ⟨e, e', hpair⟩ :=
      executeAll_pair (s := s) (p := playChain s idle m) child n r'
    -- both clips would be too deep
    obtain ⟨e₁, he₁⟩ := enter_deep (p := playChain s idle m) hchar ho.live (by dsimp only; omega)
      ⟨1⟩ .identity
    obtain ⟨e₂, he₂⟩ := enter_deep (p := playChain s idle m) (r := (r'.emit e₁).emit e) hchar ho.live
      (by dsimp only; omega) ⟨2⟩ .identity
    dsimp only at hpair
    rw [he₁, he₂] at hpair
    rw [heq, hpair]
    have hused : Uses child 0 r' ((((r'.emit e₁).emit e).emit e₂).emit e') :=
      (Uses.refl ho.uses.wellFormed ho.uses.free child).emit _ |>.emit _ |>.emit _ |>.emit _
    refine ⟨1, rfl, ho.finish hused, ho.deepest hlevel rfl ?_ hg (by simp)⟩
    simp
  | succ e ih =>
    obtain ⟨m, rfl⟩ := Nat.exists_eq_add_one_of_ne_zero (Nat.ne_of_gt (Nat.zero_lt_of_lt hm))
    have hpow : 2 ^ (e + 1 + 1) = 2 * 2 ^ (e + 1) := Nat.pow_succ'
    have hpos : 0 < 2 ^ (e + 1) := Nat.two_pow_pos _
    obtain ⟨child, n, r', ho, -, -, heq⟩ :=
      enter_opens hchar hw hfree hx (by omega) (by omega) m object mat
    obtain ⟨a, a', hpair⟩ :=
      executeAll_pair (s := s) (p := playChain s idle m) child n r'
    obtain ⟨used, hused, hfirst, -⟩ := ih (m := m) (by omega) ho.uses.wellFormed ho.uses.free
      ho.live (by dsimp only; omega) (by rw [ho.uses.size]; omega) ⟨1⟩ .identity
    dsimp only at hpair
    generalize Command.enter s (playChain s idle m) child ⟨1⟩ ⟨1⟩ .identity r' = first at *
    obtain ⟨l, -, hlive⟩ := hfirst.kept child _ ho.live
    obtain ⟨used', hused', hsecond, hdeepest⟩ := ih (m := m) (r := first.2.emit a) (by omega)
      hfirst.wellFormed hfirst.free hlive (by dsimp only; omega)
      (by rw [Run.arena_emit, hfirst.size, ho.uses.size]; omega) ⟨2⟩ .identity
    generalize Command.enter s (playChain s idle m) child ⟨1⟩ ⟨2⟩ .identity (first.2.emit a) = second
      at *
    obtain ⟨l', -, hlive'⟩ := hsecond.kept child _ hlive
    rw [heq, hpair]
    refine ⟨1 + (used + used'), by omega, ho.finish (((hfirst.emit a).trans hsecond).emit a'), ?_⟩
    exact (hdeepest.emit a').above hlive' (by dsimp only; omega) (by simp)

/-- All indices are in use, and the last animator, as deep as clips nest, has played once. -/
structure Exhausted (limit : Nat) (owner : Handle) (a : Arena) : Prop where
  free : a.free = []
  full : a.slots.size = UInt32.size
  above : ∃ x, a.get? owner = some x ∧ x.depth < limit
  last : ∃ parent, a.get? a.lastHandle = some
    { timeline := doubling, cursor := 1, parent := parent, depth := limit }

theorem Exhausted.last_ne {a : Arena} (h : Exhausted limit owner a) : a.lastHandle ≠ owner := by
  obtain ⟨x, hx, hdepth⟩ := h.above
  obtain ⟨parent, hlast⟩ := h.last
  intro he
  rw [he, hx] at hlast
  cases hlast
  exact Nat.lt_irrefl _ hdepth

theorem Exhausted.modify {a : Arena} (h : Exhausted limit owner a) {f : Animation → Animation}
    (hf : ∀ x, (f x).depth = x.depth) : Exhausted limit owner (a.modify owner f) := by
  have hsame : (a.modify owner f).lastHandle = a.lastHandle :=
    Arena.lastHandle_congr (Arena.size_modify a owner f)
  obtain ⟨x, hx, hdepth⟩ := h.above
  refine ⟨(Arena.free_modify a owner f).trans h.free, (Arena.size_modify a owner f).trans h.full,
    ⟨f x, ?_, by rwa [hf]⟩, ?_⟩
  · rw [Arena.get?_modify, if_pos rfl, hx]
    rfl
  · rw [hsame, Arena.get?_modify, if_neg h.last_ne]
    exact h.last

/-- A clip plays the last animator instead of one of its own. -/
structure Mistaken (limit : Nat) (owner : Handle) (object : ObjectId) (r : Run) (n : Node) (r' : Run) :
    Prop where
  id : n.id = object
  bare : n.children = []
  shows : n.animator? = some r.arena.lastHandle
  moved : ∃ parent, r'.arena.get? r.arena.lastHandle = some
    { timeline := doubling, cursor := 2, parent := parent, depth := limit }
  events : ∃ f, f.animator = r.arena.lastHandle ∧ r'.events.toList =
    r.events.toList ++ [.spawn owner r.arena.lastHandle object ⟨1⟩, .frame f]

/-- The handle of the last animator is given out again, and its second frame is played on the new clip. -/
theorem enter_full (hchar : s.resolve ⟨1⟩ = some (.timeline doubling))
    (hexhausted : Exhausted s.options.maxNestingDepth owner r.arena) (m : Nat) (object : ObjectId)
    (mat : Geometry.Matrix) :
    let out := Command.enter s (playChain s idle (m + 1)) owner ⟨1⟩ object mat r
    Mistaken s.options.maxNestingDepth owner object r out.1 out.2 := by
  obtain ⟨x, hx, hlevel⟩ := hexhausted.above
  obtain ⟨parent, hlast⟩ := hexhausted.last
  have hdepth : r.spawnDepth owner = x.depth + 1 := by rw [Run.spawnDepth, hx]
  obtain ⟨hagain, hkept⟩ :=
    Arena.spawn_of_full hexhausted.free hexhausted.full doubling owner (x.depth + 1)
  have hstill := hkept _ _ hexhausted.last_ne hlast
  rw [enter_of_timeline hchar, spawn_of_le (by omega), hdepth, playChain, hagain]
  have hstarted : (r.start doubling owner (x.depth + 1) object ⟨1⟩).arena.get? r.arena.lastHandle = _ :=
    hstill
  obtain ⟨f, hf, hplay⟩ := playStep_on_bare (s := s) (p := playChain s idle m)
    (n := { id := object, kind := .clip ⟨1⟩ (some r.arena.lastHandle), transform := mat.decompose })
    hstarted rfl (.inr rfl) rfl
  rw [hplay]
  refine ⟨rfl, rfl, rfl, ⟨parent, ?_⟩, f, hf, ?_⟩
  · exact Run.get?_advance (Run.get?_seek hstarted 1)
  · simp [Plan.steps, Command.executeAll, Run.advance, Run.seek, Run.start, hagain]

theorem Mistaken.retired {object : ObjectId} (hm : Mistaken limit owner object r n r') {h : Handle}
    {slots : Nat} {reason : RetireReason} (hin : .retire h slots reason ∈ r'.events) :
    .retire h slots reason ∈ r.events := by
  obtain ⟨f, -, hevents⟩ := hm.events
  rw [← Array.mem_toList_iff, hevents, List.mem_append] at hin
  rcases hin with hbefore | hin
  · exact Array.mem_toList_iff.mp hbefore
  · simp at hin

theorem execute_full (hchar : s.resolve ⟨1⟩ = some (.timeline doubling))
    (hexhausted : Exhausted s.options.maxNestingDepth owner r.arena) (m : Nat) (object : ObjectId)
    (mat : Geometry.Matrix) (n : Node) :
    ∃ x y, r.arena.get? r.arena.lastHandle = some x ∧
      ((Command.place ⟨1⟩ object none mat).execute s (playChain s idle (m + 1)) owner n
        r).2.2.arena.get? r.arena.lastHandle = some y ∧ x.cursor ≠ y.cursor := by
  obtain ⟨parent, hlast⟩ := hexhausted.last
  obtain ⟨parent', hmoved⟩ := (enter_full hchar hexhausted m object mat).moved
  rw [Command.execute_eq]
  exact ⟨_, _, hlast, hmoved, Nat.ne_add_one 1⟩

/-- In a batch, a clip that is placed where all indices are in use plays the last animator. -/
theorem executeAll_full (hchar : s.resolve ⟨1⟩ = some (.timeline doubling))
    (hexhausted : Exhausted s.options.maxNestingDepth owner r.arena) (m : Nat) (object : ObjectId)
    (cs : List Command) (n : Node) :
    ∃ b r' e, Mistaken s.options.maxNestingDepth owner object r b r' ∧ e.isChange = false ∧
      Command.executeAll s (playChain s idle (m + 1)) owner (.place ⟨1⟩ object none .identity :: cs) n
          r =
        Command.executeAll s (playChain s idle (m + 1)) owner cs
          { n with children := n.children ++ [b] } (Run.emit r' e) := by
  obtain ⟨e, he, hall⟩ := executeAll_place (s := s) (p := playChain s idle (m + 1)) (h := owner) ⟨1⟩
    object .identity cs n r
  exact ⟨_, _, e, enter_full hchar hexhausted m object .identity, he, hall⟩

/-- All slots are in use below the first clip of a root. -/
structure Full (main : Timeline) (n : Node) (r : Run) : Prop where
  id : n.id = ⟨1⟩
  wellFormed : r.arena.WellFormed
  exhausted : Exhausted 32 ⟨0, 0⟩ r.arena
  root : ∃ l, r.arena.get? ⟨0, 0⟩ = some { timeline := main, children := l }
  deepest : Deepest 32 n r

theorem play_on_empty {h : Handle} {frame : Frame} (id : ObjectId) (hx : r.arena.get? h = some x)
    (hframe : x.timeline.frames[x.cursor]? = some frame)
    (hquiet : s.options.retireDetached = false ∨ x.children = []) :
    ∃ f : FrameEvent, f.animator = h ∧ play s h (.container id) r =
      let out := Command.executeAll s (playChain s idle s.options.maxNestingDepth) h
        (Plan.steps [] frame.commands) (.container id) ((r.seek h x.cursor).emit (.frame f))
      (out.1, out.2.advance h) := by
  have hbound : nestingBound s (.container id) = s.options.maxNestingDepth + 1 := by
    rw [nestingBound]
    exact congrArg (· + 1) (Nat.zero_add _)
  obtain ⟨f, hf, hplay⟩ := playStep_on_bare (n := .container id) hx hframe hquiet rfl
  refine ⟨f, hf, ?_⟩
  rw [play, hbound]
  exact hplay

theorem play_full (hchar : s.resolve ⟨1⟩ = some (.timeline doubling)) {h : Handle}
    (hexhausted : Exhausted s.options.maxNestingDepth h r.arena) (hx : r.arena.get? h = some x)
    (hframe : x.timeline.frames[x.cursor]? = some ⟨[.known (.place ⟨1⟩ ⟨1⟩ none .identity)]⟩)
    (hquiet : s.options.retireDetached = false ∨ x.children = []) (id : ObjectId) :
    let out := (play s h (.container id) r).2
    (∃ y z, r.arena.get? r.arena.lastHandle = some y ∧ out.arena.get? r.arena.lastHandle = some z ∧
      y.cursor ≠ z.cursor) ∧
    ∀ g slots reason, .retire g slots reason ∈ out.events → .retire g slots reason ∈ r.events := by
  have hlimit : s.options.maxNestingDepth ≠ 0 := by
    obtain ⟨y, -, hdepth⟩ := hexhausted.above
    omega
  obtain ⟨m, hm⟩ := Nat.exists_eq_add_one_of_ne_zero hlimit
  obtain ⟨f, -, hplay⟩ := play_on_empty id hx hframe hquiet
  have hsteps : Plan.steps [] [.known (.place ⟨1⟩ ⟨1⟩ none .identity)] =
      [.place ⟨1⟩ ⟨1⟩ none .identity] := rfl
  have hlater : Exhausted s.options.maxNestingDepth h ((r.seek h x.cursor).emit (.frame f)).arena :=
    hexhausted.modify fun _ => rfl
  have hsame : ((r.seek h x.cursor).emit (.frame f)).arena.lastHandle = r.arena.lastHandle :=
    Arena.lastHandle_congr (Run.size_seek r h x.cursor)
  obtain ⟨b, r', e, hmistaken, he, hall⟩ :=
    executeAll_full hchar hlater m ⟨1⟩ [] (.container id)
  obtain ⟨parent, hlast⟩ := hexhausted.last
  obtain ⟨parent', hmoved⟩ := hmistaken.moved
  rw [hsame] at hmoved
  dsimp only
  rw [hplay, hsteps, hm, hall]
  constructor
  · have hkept := Run.get?_advance_of_ne (r'.emit e) hexhausted.last_ne
    exact ⟨_, _, hlast, hkept.trans hmoved, Nat.ne_add_one 1⟩
  · intro g slots reason hin
    rcases Array.mem_push.mp hin with hin | rfl
    · exact (Array.mem_push.mp (hmistaken.retired hin)).resolve_right Event.noConfusion
    · cases he

/-- With clips that nest 32 deep, one placement in the first frame fills all slots. -/
theorem play_fills (hchar : s.resolve ⟨1⟩ = some (.timeline doubling))
    (hlimit : s.options.maxNestingDepth = 32) (main : Timeline) (rest : List FrameCommand)
    (hmain : main.frames[0]? =
      some ⟨.known (.place ⟨1⟩ ⟨1⟩ none .identity) :: rest⟩) (options : Options) (id : ObjectId) :
    ∃ c r, Full main c r ∧
      play s (Animator.start main options).root (.container id)
          { arena := (Animator.start main options).arena } =
        let out := Command.executeAll s (playChain s idle 32) ⟨0, 0⟩ (Plan.steps [⟨1⟩] rest)
          { Node.container id with children := [c] } r
        (out.1, out.2.advance ⟨0, 0⟩) := by
  obtain ⟨f, -, hplay⟩ := play_on_empty (s := s) (r := { arena := (Animator.start main options).arena })
    (x := { timeline := main }) (h := ⟨0, 0⟩) id rfl hmain (.inr rfl)
  generalize hr : (Run.seek _ ⟨0, 0⟩ _).emit _ = r at hplay
  have harena : r.arena = (Animator.start main options).arena := hr ▸ rfl
  have hsteps : Plan.steps [] (.known (.place ⟨1⟩ ⟨1⟩ none .identity) :: rest) =
      .place ⟨1⟩ ⟨1⟩ none .identity :: Plan.steps [⟨1⟩] rest := rfl
  have hfit : (Arena.alloc {} main none 0).2.Fits := by simp [Arena.Fits, Arena.alloc, UInt32.size]
  have hw : r.arena.WellFormed := harena ▸ Arena.WellFormed.empty.alloc hfit
  have hlive : r.arena.get? ⟨0, 0⟩ = some { timeline := main } := by
    rw [harena]
    rfl
  have hsize : r.arena.slots.size = 1 := by
    rw [harena]
    rfl
  obtain ⟨a, -, hall⟩ := executeAll_place (s := s) (p := playChain s idle 32) (h := ⟨0, 0⟩) ⟨1⟩ ⟨1⟩
    .identity (Plan.steps [⟨1⟩] rest) (.container id) r
  have hpow : 2 ^ (31 + 1) = UInt32.size := rfl
  obtain ⟨used, hused, huses, hdeepest⟩ := enter_doubling hchar 31 (m := 32) (by omega) hw
    (by rw [harena]; rfl) hlive (by dsimp only; omega) (by rw [hsize, hpow, Nat.add_comm]) ⟨1⟩ .identity
  obtain ⟨l, -, hroot⟩ := huses.kept _ _ hlive
  obtain ⟨hid, -⟩ := enter_shown (playStep_head s (playChain s idle 31)) ⟨0, 0⟩ ⟨1⟩ ⟨1⟩ .identity r
  rw [← playChain] at hid
  rw [hlimit, hsteps, hall] at hplay
  rw [hlimit] at hdeepest
  generalize Command.enter s (playChain s idle 32) ⟨0, 0⟩ ⟨1⟩ ⟨1⟩ .identity r = out at *
  have hfull : out.2.arena.slots.size = UInt32.size := by
    rw [huses.size, hsize, Nat.add_comm, hused, hpow]
  refine ⟨out.1, out.2.emit a, ⟨hid, huses.wellFormed, ?_, ⟨l, hroot⟩, hdeepest.emit a⟩, hplay⟩
  exact ⟨huses.free, hfull, ⟨_, hroot, Nat.zero_lt_succ 31⟩, hdeepest.last⟩

end Doubling

end SceneReel
