import SceneReel.Proofs.Playback.CascadePlay
import SceneReel.Proofs.Playback.Nesting

/-!
Playback as a relation, without a bound on how deep its calls nest: what is played comes to its end, and
the relation tells all that was reported in the meantime, and of which node.
-/
namespace SceneReel

/-- An event, and the node on which the animator plays whose tick reports it. -/
structure Report where
  event : Event
  node : Node

/-- What is done on a node: an animator plays, or those that it lists do, or it executes commands. -/
inductive Task where
  | animator (h : Handle)
  | children (gs : List Handle)
  | commands (h : Handle) (cs : List Command)

def Command.Still (s : Setting) (h : Handle) (r : Run) (c : Command) : Prop :=
  ∀ char object before m t, c = .place char object before m →
    s.resolve char = some (.timeline t) → s.options.maxNestingDepth < r.spawnDepth h

/-- A task on a node comes to its end, with these reports. -/
inductive Unfolds (s : Setting) : Task → Node → Run → List Report → Node → Run → Prop
  /-- An animator that is not live does nothing, nor does one without frames. -/
  | still {h : Handle} {n : Node} {r : Run}
      (still : ∀ x, r.arena.get? h = some x → x.timeline.frameCount = 0) :
      Unfolds s (.animator h) n r [] n r
  /-- An animator was retired while those that it lists were playing. -/
  | retired {h : Handle} {n n₁ : Node} {r r₁ : Run} {tr : List Report} {x : Animation}
      (live : r.arena.get? h = some x) (hcount : x.timeline.frameCount ≠ 0)
      (below : Unfolds s (.children x.children) n r tr n₁ r₁) (dead : r₁.arena.get? h = none) :
      Unfolds s (.animator h) n r tr n₁ r₁
  /-- The cursor is past all frames. -/
  | beyond {h : Handle} {n n₁ : Node} {r r₁ : Run} {tr : List Report} {x y : Animation}
      (live : r.arena.get? h = some x) (hcount : x.timeline.frameCount ≠ 0)
      (below : Unfolds s (.children x.children) n r tr n₁ r₁) (live' : r₁.arena.get? h = some y)
      (hframe : x.timeline.frames[if y.cursor = x.timeline.frameCount then 0 else y.cursor]? = none) :
      Unfolds s (.animator h) n r tr n₁
        (r₁.seek h (if y.cursor = x.timeline.frameCount then 0 else y.cursor))
  /-- An animator plays its frame: it is reported, and then the commands of its plan are executed. -/
  | frame {h : Handle} {n n₁ n₂ : Node} {r r₁ r₂ : Run} {tr tr' : List Report} {x y : Animation}
      {f : Frame} {number : Nat} {looped : Bool}
      (live : r.arena.get? h = some x) (hcount : x.timeline.frameCount ≠ 0)
      (below : Unfolds s (.children x.children) n r tr n₁ r₁) (live' : r₁.arena.get? h = some y)
      (hlooped : looped = (y.cursor == x.timeline.frameCount))
      (hnumber : number = if y.cursor = x.timeline.frameCount then 0 else y.cursor)
      (hframe : x.timeline.frames[number]? = some f)
      (batch : Unfolds s (.commands h (Plan.ofFrame n₁.childIds f looped).commands) n₁
        ((r₁.seek h number).emit
          (.frame ((Plan.ofFrame n₁.childIds f looped).report h number looped))) tr' n₂ r₂) :
      Unfolds s (.animator h) n r
        (tr ++ ⟨.frame ((Plan.ofFrame n₁.childIds f looped).report h number looped), n₁⟩ :: tr')
        n₂ (r₂.advance h)
  | last {n : Node} {r : Run} : Unfolds s (.children []) n r [] n r
  /-- A nested animator plays on its child. -/
  | nested {g : Handle} {gs : List Handle} {n n₁ n₂ c c' : Node} {r r₁ r₂ : Run}
      {tr tr' : List Report} (child : n.animatedChild? g = some c)
      (inner : Unfolds s (.animator g) c r tr c' r₁)
      (exchange : n.updateChild? (·.animator? = some g) (fun _ => (c', ())) = some (n₁, ()))
      (rest : Unfolds s (.children gs) n₁ r₁ tr' n₂ r₂) :
      Unfolds s (.children (g :: gs)) n r (tr ++ tr') n₂ r₂
  /-- A nested animator without a child to play on is passed over or retired. -/
  | detached {g : Handle} {gs : List Handle} {n n₂ : Node} {r r₁ r₂ : Run} {es : List Event}
      {tr : List Report} (child : n.animatedChild? g = none)
      (next : r₁ = if s.options.retireDetached then r.retire .detached g else r)
      (events : r.Emits r₁ es) (rest : Unfolds s (.children gs) n r₁ tr n₂ r₂) :
      Unfolds s (.children (g :: gs)) n r (es.map (⟨·, n⟩) ++ tr) n₂ r₂
  | done {h : Handle} {n : Node} {r : Run} : Unfolds s (.commands h []) n r [] n r
  /-- A command that starts no clip is executed and reported. -/
  | plain {h : Handle} {c : Command} {cs : List Command} {n n₁ n₂ : Node} {r r₁ r₂ : Run}
      {es : List Event} {outcome : Outcome} {tr : List Report} (hstill : c.Still s h r)
      (exec : c.execute s idle h n r = (outcome, n₁, r₁)) (events : r.Emits r₁ es)
      (rest : Unfolds s (.commands h cs) n₁ (r₁.emit (.command h c.kind c.object outcome)) tr n₂ r₂) :
      Unfolds s (.commands h (c :: cs)) n r
        (es.map (⟨·, n⟩) ++ ⟨.command h c.kind c.object outcome, n₁⟩ :: tr) n₂ r₂
  /-- A clip that starts plays at once, before the command that places it is reported. -/
  | clip {h child : Handle} {char : CharId} {object : ObjectId} {before : Option ObjectId}
      {m : Geometry.Matrix} {t : Timeline} {cs : List Command} {n n₂ clip : Node} {r r₁ r₂ : Run}
      {tr tr' : List Report} (hchar : s.resolve char = some (.timeline t))
      (hd : r.spawnDepth h ≤ s.options.maxNestingDepth)
      (hchild : child = (r.arena.spawn t h (r.spawnDepth h)).1)
      (inner : Unfolds s (.animator child)
        { id := object, kind := .clip char (some child), transform := m.decompose }
        (r.start t h (r.spawnDepth h) object char) tr clip r₁)
      (rest : Unfolds s (.commands h cs) (n.insertBefore clip before).2
        (r₁.emit (.command h .place object (Command.placeOutcome (s.resolve char) before n))) tr'
        n₂ r₂) :
      Unfolds s (.commands h (.place char object before m :: cs)) n r
        (⟨.spawn h child object char, n⟩ :: (tr ++
          ⟨.command h .place object (Command.placeOutcome (s.resolve char) before n),
            (n.insertBefore clip before).2⟩ :: tr')) n₂ r₂

variable {s : Setting} {q : Attempt} {task : Task} {h : Handle} {n n' : Node} {r r' : Run}
  {tr : List Report} {out : Node × Run}

theorem Command.execute_inj {c : Command} {outcome : Outcome}
    (hexec : c.execute s idle h n r = (outcome, n', r')) :
    n' = { n with
      children := c.arrange Command.nodes (fun x y m => (Command.enter s idle h x y m r).1)
        n.children } ∧ r' = c.settle s idle h n r := by
  have heq := Command.execute_eq s idle h n r c
  rw [hexec] at heq
  exact Prod.mk.inj heq

theorem Run.emits_start (r : Run) (t : Timeline) (owner : Handle) (d : Nat) (object : ObjectId)
    (char : CharId) : r.Emits (r.start t owner d object char)
      [.spawn owner (r.arena.spawn t owner d).1 object char] := by
  simp [Run.Emits, Run.start]

section Keeping

variable {P : Run → Prop}

theorem Setting.Keeps.detach (hs : s.Keeps P) (hr : P r) (g : Handle) :
    P (if s.options.retireDetached then r.retire .detached g else r) := by
  split
  · exact hs.retire hr .detached g
  · exact hr

theorem Setting.Keeps.execute (hs : s.Keeps P) {c : Command} {outcome : Outcome}
    (hexec : c.execute s idle h n r = (outcome, n', r')) (hr : P r) : P r' := by
  rw [(Command.execute_inj hexec).2]
  exact settle_keeps hs (fun _ _ _ hr => hr) h c n hr

end Keeping

section Asides

/-- The event reports that an animator has retired, or that a clip stays without one. -/
def Event.isAside : Event → Bool
  | .retire .. | .nestingLimit .. => true
  | _ => false

/-- What a command that starts no clip reports before its outcome: retirements, or a clip nested too
deep. -/
def Command.Asides (s : Setting) (h : Handle) (n : Node) (es : List Event) : Command → Prop
  | .place char object _ _ =>
    (∃ t depth, s.resolve char = some (.timeline t) ∧ s.options.maxNestingDepth < depth ∧
      es = [.nestingLimit h object depth]) ∨
    (∀ t, s.resolve char ≠ some (.timeline t)) ∧ es = []
  | .remove object => ∀ e ∈ es, ∃ g slots, e = .retire g slots .removed ∧
      ∃ b ∈ n.children, b.id = object ∧ b.animator? = some g
  | _ => es = []

theorem Command.Still.asides {c : Command} {outcome : Outcome} {es : List Event}
    (hstill : c.Still s h r) (hexec : c.execute s idle h n r = (outcome, n', r'))
    (hes : r.Emits r' es) : c.Asides s h n es := by
  have hsettle := (Command.execute_inj hexec).2
  cases c with
  | place char object before m =>
    by_cases hchar : ∃ t, s.resolve char = some (.timeline t)
    · obtain ⟨t, hchar⟩ := hchar
      have hd := hstill char object before m t rfl hchar
      have hrun : r' = r.emit (.nestingLimit h object (r.spawnDepth h)) := by
        rw [hsettle, Command.settle, enter_of_timeline hchar, spawn_of_lt hd]
      subst hrun
      exact .inl ⟨t, _, hchar, hd, hes.unique (r.emits_emit _)⟩
    · have hchar : ∀ t, s.resolve char ≠ some (.timeline t) := fun t ht => hchar ⟨t, ht⟩
      have hrun : r' = r := by
        rw [hsettle, Command.settle, (enter_of_still hchar object m).1]
      subst hrun
      exact .inr ⟨hchar, hes.unique (.refl r')⟩
  | remove object =>
    obtain ⟨es', hes', hall⟩ := retireAll_emits
      ((n.children.filter (·.id = object)).filterMap Node.animator?) .removed r
    have hrun : r.Emits r' es' := by
      rw [hsettle]
      exact hes'
    obtain rfl := hes.unique hrun
    intro e he
    obtain ⟨g, hg, slots, he⟩ := hall e he
    obtain ⟨b, hb, hbg⟩ := List.mem_filterMap.mp hg
    obtain ⟨hb, hid⟩ := List.mem_filter.mp hb
    exact ⟨g, slots, he, b, hb, of_decide_eq_true hid, hbg⟩
  | _ =>
    obtain rfl : r' = r := hsettle
    exact hes.unique (.refl r')

theorem Command.Asides.isAside {c : Command} {es : List Event} (hc : c.Asides s h n es) :
    ∀ e ∈ es, e.isAside = true := by
  intro e he
  cases c with
  | place char object before m =>
    rcases hc with ⟨t, depth, -, -, rfl⟩ | ⟨-, rfl⟩
    · rw [List.mem_singleton.mp he]
      rfl
    · cases he
  | remove object =>
    obtain ⟨g, slots, rfl, -⟩ := hc e he
    rfl
  | _ =>
    obtain rfl : es = [] := hc
    cases he

theorem isAside_of_mem_map {es : List Event} (hes : ∀ e ∈ es, e.isAside = true) {n : Node}
    {b : Report} (hb : b ∈ es.map (⟨·, n⟩)) : b.event.isAside = true := by
  obtain ⟨e, he, rfl⟩ := List.mem_map.mp hb
  exact hes e he

theorem Run.Emits.isAside_retire {es : List Event} {reason : RetireReason}
    (hes : r.Emits (r.retire reason h) es) : ∀ e ∈ es, e.isAside = true := by
  obtain ⟨es', hes', hall⟩ := retireAll_emits [h] reason r
  obtain rfl := hes.unique hes'
  intro e he
  obtain ⟨g, -, slots, rfl⟩ := hall e he
  rfl

theorem Run.Emits.isAside_detach {es : List Event} {g : Handle}
    (hes : r.Emits (if s.options.retireDetached then r.retire .detached g else r) es) :
    ∀ e ∈ es, e.isAside = true := by
  split at hes
  · exact hes.isAside_retire
  · obtain rfl := hes.unique (.refl r)
    exact fun e he => absurd he List.not_mem_nil

end Asides

section Complete

/-- Where attempts succeed, what they do is played to its end. -/
def Attempt.Completes (s : Setting) (q : Attempt) : Prop :=
  ∀ h n r out, r.arena.Stored → q h n r = .ok out →
    ∃ tr, Unfolds s (.animator h) n r tr out.1 out.2

theorem Run.Later.emits (hr : Run.Later r r') : ∃ es, r.Emits r' es := by
  obtain ⟨es, hes⟩ := hr.events
  exact ⟨es, hes.symm⟩

theorem unfolds_of_performAll? (hq : q.Completes s) (hk : q.Keeps fun r => r.arena.Stored)
    (cs : List Command) (hs : r.arena.Stored)
    (hok : Command.performAll? s q h cs n r = .ok out) :
    ∃ tr, Unfolds s (.commands h cs) n r tr out.1 out.2 := by
  induction cs generalizing n r with
  | nil =>
    cases hok
    exact ⟨[], .done⟩
  | cons c cs ih =>
    by_cases hstill : c.Still s h r
    · have hstarts : q.Starts s idle h r c := fun char object before m t hc hchar hd =>
        absurd hd (Nat.not_le.mpr (hstill char object before m t hc hchar))
      rw [performAll?_cons hs cs hstarts] at hok
      obtain ⟨tr, htr⟩ := ih (s.keeps_stored.emit (e := .command ..)
        (s.keeps_stored.execute rfl hs) rfl) hok
      obtain ⟨es, hes⟩ := ((Run.keeps_later s r).execute rfl (.refl r)).emits
      exact ⟨_, .plain hstill rfl hes htr⟩
    · unfold Command.Still at hstill
      push Not at hstill
      obtain ⟨char, object, before, m, t, rfl, hchar, hd⟩ := hstill
      rw [Command.performAll?, perform?_place hs hchar hd] at hok
      obtain ⟨placed, hplaced, hok⟩ := exists_of_bind_eq_ok hok
      obtain ⟨played, hplayed, hplaced⟩ := exists_of_bind_eq_ok hplaced
      cases hplaced
      have hstart := s.keeps_stored.start hs hchar h object
      obtain ⟨tr, htr⟩ := hq _ _ _ _ hstart hplayed
      have hend := hk (r.arena.spawn t h (r.spawnDepth h)).1
        { id := object, kind := .clip char (some (r.arena.spawn t h (r.spawnDepth h)).1),
          transform := m.decompose } hstart
      rw [hplayed] at hend
      obtain ⟨tr', htr'⟩ := ih (r := Run.emit _ _) hend hok
      exact ⟨_, .clip hchar hd rfl htr htr'⟩

theorem unfolds_of_playChildren? (hq : q.Completes s) (hk : q.Keeps fun r => r.arena.Stored)
    (gs : List Handle) (hs : r.arena.Stored) (hok : playChildren? s q gs n r = .ok out) :
    ∃ tr, Unfolds s (.children gs) n r tr out.1 out.2 := by
  induction gs generalizing n r with
  | nil =>
    cases hok
    exact ⟨[], .last⟩
  | cons g gs ih =>
    cases hc : n.animatedChild? g with
    | none =>
      rw [(playChildren?_of_not_animated s hc idle q gs r).2] at hok
      obtain ⟨tr, htr⟩ := ih (s.keeps_stored.detach hs g) hok
      obtain ⟨es, hes⟩ := ((Run.keeps_later s r).detach (.refl r) g).emits
      exact ⟨_, .detached hc rfl hes htr⟩
    | some c =>
      obtain ⟨pre, post, -, -, hupdate⟩ := Node.updateChild?_of_animated hc
      rw [playChildren?, hupdate] at hok
      cases hplayed : q g c r with
      | error r₁ =>
        rw [hplayed] at hok
        cases hok
      | ok played =>
        rw [hplayed] at hok
        obtain ⟨tr, htr⟩ := hq _ _ _ _ hs hplayed
        have hend := hk g c hs
        rw [hplayed] at hend
        obtain ⟨tr', htr'⟩ := ih hend hok
        exact ⟨_, .nested hc htr (hupdate _) htr'⟩

theorem completes_playStep? (hq : q.Completes s) (hk : q.Keeps fun r => r.arena.Stored) :
    (playStep? s q).Completes s := by
  intro h n r out hs hok
  by_cases hstill : ∀ x, r.arena.get? h = some x → x.timeline.frameCount = 0
  · rw [playStep?_eq_self hstill] at hok
    cases hok
    exact ⟨[], .still hstill⟩
  push Not at hstill
  obtain ⟨x, hx, hcount⟩ := hstill
  rw [playStep?_eq_bind hx hcount] at hok
  obtain ⟨below, hbelow, hok⟩ := exists_of_bind_eq_ok hok
  obtain ⟨tr, htr⟩ := unfolds_of_playChildren? hq hk x.children hs hbelow
  have hs₁ : below.2.arena.Stored := by
    have hkept := playChildren?_keeps s.keeps_stored hk x.children n hs
    rwa [hbelow] at hkept
  cases hy : below.2.arena.get? h with
  | none =>
    rw [playFrame?_of_dead hy] at hok
    cases hok
    exact ⟨tr, .retired hx hcount htr hy⟩
  | some y =>
    cases hframe : x.timeline.frames[if y.cursor = x.timeline.frameCount then 0 else y.cursor]? with
    | none =>
      rw [playFrame?_of_none hy hframe] at hok
      cases hok
      exact ⟨tr, .beyond hx hcount htr hy hframe⟩
    | some f =>
      rw [playFrame?_eq_bind hy hframe] at hok
      obtain ⟨played, hplayed, hok⟩ := exists_of_bind_eq_ok hok
      cases hok
      obtain ⟨tr', htr'⟩ := unfolds_of_performAll? hq hk _
        (s.keeps_stored.emit (e := .frame _) (s.keeps_stored.seek hs₁ h _) rfl) hplayed
      exact ⟨_, .frame hx hcount htr hy rfl rfl hframe htr'⟩

theorem completes_playChain? (s : Setting) (m : Nat) : (playChain? s halt m).Completes s := by
  induction m with
  | zero => exact fun h n r out _ hok => by cases hok
  | succ m ih =>
    have hhalt : halt.Keeps fun r => r.arena.Stored := fun _ _ _ hr => hr
    exact completes_playStep? ih (playChain?_keeps s.keeps_stored hhalt m)

end Complete

namespace Unfolds

theorem emits (hp : Unfolds s task n r tr n' r') : r.Emits r' (tr.map Report.event) := by
  have hmap : ∀ (es : List Event) (n : Node),
      (es.map fun e => Report.mk e n).map Report.event = es := fun es n => by
    simp [List.map_map, Function.comp_def]
  induction hp with
  | still => exact .refl _
  | retired _ _ _ _ ih => exact ih
  | beyond _ _ _ _ _ ih => exact ih
  | @frame h n n₁ n₂ r r₁ r₂ tr tr' x y f number looped _ _ _ _ _ _ _ _ ih ih' =>
    rw [List.map_append]
    have hreport := Run.emits_emit (r₁.seek h number)
      (.frame ((Plan.ofFrame n₁.childIds f looped).report h number looped))
    exact ih.trans (hreport.trans ih')
  | last => exact .refl _
  | nested _ _ _ _ ih ih' =>
    rw [List.map_append]
    exact ih.trans ih'
  | detached _ _ hes _ ih =>
    rw [List.map_append, hmap]
    exact hes.trans ih
  | done => exact .refl _
  | plain _ _ hes _ ih =>
    rw [List.map_append, hmap]
    exact hes.trans ((Run.emits_emit _ _).trans ih)
  | clip _ _ hchild _ _ ih ih' =>
    subst hchild
    rw [List.map_cons, List.map_append]
    exact (Run.emits_start _ _ _ _ _ _).trans (ih.trans ((Run.emits_emit _ _).trans ih'))

theorem keeps {P : Run → Prop} (hs : s.Keeps P) (hp : Unfolds s task n r tr n' r') (hr : P r) :
    P r' := by
  induction hp with
  | still => exact hr
  | retired _ _ _ _ ih => exact ih hr
  | beyond _ _ _ _ _ ih => exact hs.seek (ih hr) _ _
  | frame _ _ _ _ _ _ _ _ ih ih' => exact hs.advance (ih' (hs.emit (hs.seek (ih hr) _ _) rfl)) _
  | last => exact hr
  | nested _ _ _ _ ih ih' => exact ih' (ih hr)
  | detached _ hnext _ _ ih =>
    subst hnext
    exact ih (hs.detach hr _)
  | done => exact hr
  | plain _ hexec _ _ ih => exact ih (hs.emit (hs.execute hexec hr) rfl)
  | clip hchar _ _ _ _ ih ih' => exact ih' (hs.emit (ih (hs.start hr hchar _ _)) rfl)

theorem later (hp : Unfolds s task n r tr n' r') : Run.Later r r' :=
  hp.keeps (Run.keeps_later s r) (.refl r)

end Unfolds

section Attempting

/-- A task is attempted, the calls nesting no deeper than so many levels. -/
def Task.attempt (s : Setting) (m : Nat) : Task → Node → Run → Except Run (Node × Run)
  | .animator h, n, r => playChain? s halt m h n r
  | .children gs, n, r => playChildren? s (playChain? s halt m) gs n r
  | .commands h cs, n, r => Command.performAll? s (playChain? s halt m) h cs n r

theorem Task.attempt_mono (task : Task) {m m' : Nat} (hm : m ≤ m')
    (hok : task.attempt s m n r = .ok out) : task.attempt s m' n r = .ok out := by
  have hprecedes := playChain?_mono s hm
  have hlater := playChain?_proceeds s m'
  cases task with
  | animator h => exact (hprecedes h n r).ok hok
  | children gs => exact (playChildren?_precedes hprecedes hlater gs n r).ok hok
  | commands h cs => exact (performAll?_precedes hprecedes hlater h cs n r).ok hok

/-- Two tasks that succeed do so at one depth. -/
theorem Task.attempt_max {task task' : Task} {m m' : Nat} {out' : Node × Run}
    (hok : task.attempt s m n r = .ok out) (hok' : task'.attempt s m' n' r' = .ok out') :
    ∃ k, task.attempt s k n r = .ok out ∧ task'.attempt s k n' r' = .ok out' :=
  ⟨max m m', task.attempt_mono (Nat.le_max_left m m') hok,
    task'.attempt_mono (Nat.le_max_right m m') hok'⟩

theorem Unfolds.attempt (hp : Unfolds s task n r tr n' r') (hs : r.arena.Stored) :
    ∃ m, task.attempt s m n r = .ok (n', r') := by
  have hkeeps := s.keeps_stored
  induction hp with
  | still hstill => exact ⟨1, playStep?_eq_self hstill⟩
  | @retired h n n₁ r r₁ tr x live hcount below dead ih =>
    obtain ⟨m, hm⟩ := ih hs
    refine ⟨m + 1, ?_⟩
    show playStep? s _ h n r = .ok (n₁, r₁)
    rw [playStep?_eq_bind live hcount, show playChildren? s _ x.children n r = .ok (n₁, r₁) from hm]
    exact playFrame?_of_dead dead
  | @beyond h n n₁ r r₁ tr x y live hcount below live' hframe ih =>
    obtain ⟨m, hm⟩ := ih hs
    refine ⟨m + 1, ?_⟩
    show playStep? s _ h n r = _
    rw [playStep?_eq_bind live hcount, show playChildren? s _ x.children n r = .ok (n₁, r₁) from hm]
    exact playFrame?_of_none live' hframe
  | @frame h n n₁ n₂ r r₁ r₂ tr tr' x y f number looped live hcount below live' hlooped hnumber hframe
      batch ih ih' =>
    obtain ⟨m, hm⟩ := ih hs
    obtain ⟨m', hm'⟩ := ih' (hkeeps.emit (hkeeps.seek (below.keeps hkeeps hs) h number) rfl)
    obtain ⟨k, hk, hk'⟩ := Task.attempt_max hm hm'
    refine ⟨k + 1, ?_⟩
    subst hlooped hnumber
    show playStep? s _ h n r = _
    rw [playStep?_eq_bind live hcount, show playChildren? s _ x.children n r = .ok (n₁, r₁) from hk]
    show playFrame? s _ h x.timeline n₁ r₁ = _
    rw [playFrame?_eq_bind live' hframe]
    dsimp only
    rw [show Command.performAll? s _ h _ n₁ _ = .ok (n₂, r₂) from hk']
    rfl
  | last => exact ⟨0, rfl⟩
  | @nested g gs n n₁ n₂ c c' r r₁ r₂ tr tr' child inner exchange rest ih ih' =>
    obtain ⟨m, hm⟩ := ih hs
    obtain ⟨m', hm'⟩ := ih' (inner.keeps hkeeps hs)
    obtain ⟨k, hk, hk'⟩ := Task.attempt_max hm hm'
    obtain ⟨pre, post, -, -, hupdate⟩ := Node.updateChild?_of_animated child
    rw [hupdate] at exchange
    cases exchange
    refine ⟨k, ?_⟩
    show playChildren? s _ (g :: gs) n r = _
    rw [playChildren?, hupdate, show playChain? s halt k g c r = .ok (c', r₁) from hk]
    exact hk'
  | @detached g gs n n₂ r r₁ r₂ es tr child hnext hes rest ih =>
    subst hnext
    obtain ⟨m, hm⟩ := ih (hkeeps.detach hs g)
    refine ⟨m, ?_⟩
    show playChildren? s _ (g :: gs) n r = _
    rw [(playChildren?_of_not_animated s child idle _ gs r).2]
    exact hm
  | done => exact ⟨0, rfl⟩
  | @plain h c cs n n₁ n₂ r r₁ r₂ es outcome tr hstill hexec hes rest ih =>
    obtain ⟨m, hm⟩ := ih (hkeeps.emit (hkeeps.execute hexec hs) rfl)
    refine ⟨m, ?_⟩
    have hstarts : (playChain? s halt m).Starts s idle h r c :=
      fun char object before m t hc hchar hd =>
        absurd hd (Nat.not_le.mpr (hstill char object before m t hc hchar))
    show Command.performAll? s _ h (c :: cs) n r = _
    rw [performAll?_cons hs cs hstarts, hexec]
    exact hm
  | @clip h child char object before m t cs n n₂ clip r r₁ r₂ tr tr' hchar hd hchild inner rest ih
      ih' =>
    subst hchild
    have hstart := hkeeps.start hs hchar h object
    obtain ⟨k, hk⟩ := ih hstart
    obtain ⟨k', hk'⟩ := ih' (hkeeps.emit (inner.keeps hkeeps hstart) rfl)
    obtain ⟨l, hl, hl'⟩ := Task.attempt_max hk hk'
    refine ⟨l, ?_⟩
    show Command.performAll? s _ h (.place char object before m :: cs) n r = _
    rw [Command.performAll?, perform?_place hs hchar hd]
    dsimp only
    rw [show playChain? s halt l _ _ _ = .ok (clip, r₁) from hl]
    exact hl'

/-- The relation holds exactly where a play with bounded nesting comes to its end. -/
theorem unfolds_iff (hs : r.arena.Stored) : (∃ tr, Unfolds s (.animator h) n r tr n' r') ↔
    ∃ m, playChain? s halt m h n r = .ok (n', r') := by
  constructor
  · rintro ⟨tr, hp⟩
    exact hp.attempt hs
  · rintro ⟨m, hok⟩
    exact completes_playChain? s m h n r _ hs hok

end Attempting

/-- Where there is room for the animators that are started, a play comes to its end. -/
theorem unfolds_play {before : List (Handle × Timeline)} (hr : r.arena.Reached (r.cast s before))
    (h : Handle) (n : Node) (hspare : (play s h n r).2.Sparing s before) :
    ∃ tr, Unfolds s (.animator h) n r tr (play s h n r).1 (play s h n r).2 :=
  (unfolds_iff hr.stored).mpr ⟨_, playChain?_eq hr hspare (Nat.lt_succ_self _)⟩

end SceneReel
