import SceneReel.Proofs.Playback.Hosting

/-!
Playing shows the scene. Whatever else is in the arena, an animator and those below it go from the scene
of one tick to the scene of the next, and the animators that start are the only ones born.
-/
namespace SceneReel

open SceneReel.Geometry
open Node (hosted carriedAll)

namespace Run

def spawned (r : Run) : List Handle :=
  r.events.toList.filterMap fun
    | .spawn _ child _ _ => some child
    | _ => none

/-- When animators were born: at the tick `τ` those that the run has started. -/
def births (r : Run) (β : Handle → Nat) (τ : Nat) (g : Handle) : Nat :=
  if g ∈ r.spawned then τ else β g

variable {r r' : Run} {g h k : Handle}

theorem mem_spawned : g ∈ r.spawned ↔
    ∃ parent object char, Event.spawn parent g object char ∈ r.events := by
  unfold spawned
  rw [List.mem_filterMap]
  constructor
  · rintro ⟨e, he, hg⟩
    cases e with
    | spawn parent child object char =>
      cases hg
      exact ⟨parent, object, char, Array.mem_toList_iff.mp he⟩
    | _ => cases hg
  · rintro ⟨parent, object, char, he⟩
    exact ⟨_, Array.mem_toList_iff.mpr he, rfl⟩

theorem mem_spawned_emit {e : Event} (he : ∀ parent child object char,
    e ≠ .spawn parent child object char) : g ∈ (r.emit e).spawned ↔ g ∈ r.spawned := by
  rw [mem_spawned, mem_spawned]
  refine exists_congr fun parent => exists_congr fun object => exists_congr fun char => ?_
  rw [events_emit, Array.mem_push]
  exact or_iff_left fun h => he _ _ _ _ h.symm

theorem mem_spawned_start (r : Run) (t : Timeline) (owner : Handle) (d : Nat) (object : ObjectId)
    (char : CharId) : g ∈ (r.start t owner d object char).spawned ↔
      g ∈ r.spawned ∨ g = (r.arena.spawn t owner d).1 := by
  rw [mem_spawned, mem_spawned]
  unfold start
  simp only [events_emit, Array.mem_push, Event.spawn.injEq]
  constructor
  · rintro ⟨parent, object', char', he | ⟨-, rfl, -, -⟩⟩
    · exact .inl ⟨parent, object', char', he⟩
    · exact .inr rfl
  · rintro (⟨parent, object', char', he⟩ | rfl)
    · exact ⟨parent, object', char', .inl he⟩
    · exact ⟨owner, object, char, .inr ⟨rfl, rfl, rfl, rfl⟩⟩

theorem mem_spawned_retireAll {reason : RetireReason} (hs : List Handle) :
    g ∈ (hs.foldl (Run.retire · reason) r).spawned ↔ g ∈ r.spawned := by
  induction hs generalizing r with
  | nil => exact Iff.rfl
  | cons h hs ih =>
    rw [List.foldl_cons, ih]
    unfold retire
    split
    · exact Iff.rfl
    · exact mem_spawned_emit (by simp)

theorem births_congr {β : Handle → Nat} {τ : Nat} (h : k ∈ r'.spawned ↔ k ∈ r.spawned) :
    r'.births β τ k = r.births β τ k := by
  unfold births
  simp only [h]

theorem births_emit {e : Event} (he : ∀ parent child object char,
    e ≠ .spawn parent child object char) (β : Handle → Nat) (τ : Nat) :
    (r.emit e).births β τ = r.births β τ :=
  funext fun _ => births_congr (mem_spawned_emit he)

end Run

/-- No live animator is born again, but for those that the nodes carry. -/
def Steady (r r' : Run) (cs : List Node) : Prop :=
  ∀ {k x}, r.arena.get? k = some x → k ∉ carriedAll cs → (k ∈ r'.spawned ↔ k ∈ r.spawned)

/-- A player takes an animator, with as many levels below it as it can serve, to its next scene. -/
def Player.Performs (s : Setting) (main : Timeline) (m : Nat) (p : Player) : Prop :=
  ∀ {β τ e t j parent d h n r}, e < m → d + e = s.options.maxNestingDepth →
    Linked s main r.arena parent d h n.children → (p h n r).2.arena.Fits →
    Shows s.resolve r.arena (r.births β τ) τ e t j h n.children →
    Shows s.resolve (p h n r).2.arena ((p h n r).2.births β τ) (τ + 1) e t (j + 1) h
        (p h n r).1.children ∧
      Steady r (p h n r).2 n.children

section Commands

variable {s : Setting} {main : Timeline} {m : Nat} {p : Player} {parent : Option Handle} {d e : Nat}
  {h : Handle} {n : Node} {r r' : Run} {x : Animation} {β : Handle → Nat} {τ : Nat} {ss : List Seat}

theorem Settles.outside {a a' : Arena} {cs cs' : List Node} {k : Handle} {y : Animation}
    (hs : Settles s main parent d h a cs a' cs') (hy : a.get? k = some y) (hk : k ∉ carriedAll cs) :
    ∃ y', a'.get? k = some y' ∧ k ∉ carriedAll cs' := by
  by_cases hkh : k = h
  · subst hkh
    obtain ⟨l, hl⟩ := hs.owner hy
    exact ⟨_, hl, (List.nodup_cons.mp hs.linked.nodup).1⟩
  · have hout : k ∉ h :: carriedAll cs := by
      rw [List.mem_cons, not_or]
      exact ⟨hkh, hk⟩
    obtain ⟨hy', hout'⟩ := hs.confined.kept hy hout
    exact ⟨y, hy', fun hin => hout' (List.mem_cons_of_mem _ hin)⟩

theorem Steady.of_emit {q : Run} {cs : List Node} {e : Event}
    (hq : Steady (r.emit e) q cs) (he : ∀ parent child object char,
      e ≠ .spawn parent child object char) : Steady r q cs := fun hy hk =>
  (hq hy hk).trans (Run.mem_spawned_emit he)

theorem Steady.of_seek {q : Run} {cs : List Node} {number : Nat} (hq : Steady (r.seek h number) q cs) :
    Steady r q cs := fun hy hk => by
  obtain ⟨y', hy'⟩ := Run.live_seek hy h number
  exact hq hy' hk

theorem Steady.trans {r'' : Run} {cs cs' : List Node} (hr : Steady r r' cs)
    (hs : Settles s main parent d h r.arena cs r'.arena cs') (hr' : Steady r' r'' cs') :
    Steady r r'' cs := by
  intro k y hy hk
  obtain ⟨y', hy', hk'⟩ := hs.outside hy hk
  exact (hr' hy' hk').trans (hr hy hk)

theorem start_shows (β : Handle → Nat) (τ e : Nat)
    (hl : Linked s main r.arena parent d h n.children) (hx : r.arena.get? h = some x) (t : Timeline)
    (object : ObjectId) (char : CharId) (hroom : (r.arena.spawn t h (d + 1)).2.Fits) :
    Shows s.resolve (r.start t h (d + 1) object char).arena
      ((r.start t h (d + 1) object char).births β τ) τ e t 0 (r.arena.spawn t h (d + 1)).1 [] := by
  obtain ⟨-, hget⟩ := hl.wellFormed.get?_spawn (d := d + 1) hx hroom
  have hborn : (r.start t h (d + 1) object char).births β τ (r.arena.spawn t h (d + 1)).1 = τ :=
    if_pos ((Run.mem_spawned_start r t h (d + 1) object char).mpr (.inr rfl))
  rw [shows_iff, hborn, Run.arena_start]
  exact ⟨⟨_, by rw [hget, if_pos rfl], rfl, rfl, .nil⟩, rfl, .nil⟩

theorem enter_stands (β : Handle → Nat) (τ : Nat) (hp : p.Links s main) (hq : p.Performs s main m)
    (hl : Linked s main r.arena parent d h n.children) (hx : r.arena.get? h = some x)
    {char : CharId} {object : ObjectId} {mat : Matrix} (hnew : object ∉ n.childIds)
    (hdecl : x.timeline.Declares object) (hde : d + e = s.options.maxNestingDepth) (hem : e ≤ m)
    (hfit : (Command.enter s p h char object mat r).2.arena.Fits) :
    Stands (Under s.resolve (Command.enter s p h char object mat r).2.arena
        ((Command.enter s p h char object mat r).2.births β τ) (τ + 1) e)
      (Command.enter s p h char object mat r).1 (Seat.fresh s.resolve e char object mat) ∧
    ∀ {k y}, r.arena.get? k = some y →
      (k ∈ (Command.enter s p h char object mat r).2.spawned ↔ k ∈ r.spawned) := by
  by_cases hr : ∃ t, s.resolve char = some (.timeline t)
  · obtain ⟨t, hr⟩ := hr
    cases e with
    | zero =>
      rw [hl.enter_of_le hr (by omega)]
      refine ⟨?_, fun _ => Run.mem_spawned_emit (by simp)⟩
      simp only [Seat.fresh, hr]
      exact ⟨rfl, rfl, rfl⟩
    | succ e =>
      have hd : d < s.options.maxNestingDepth := by omega
      rw [hl.enter_of_lt hr hd] at hfit ⊢
      have hroom : (r.arena.spawn t h (d + 1)).2.Fits := hfit.mono (hp.grows _ _ (r.start ..))
      generalize hb : ({ id := _, kind := .clip char (some _), transform := _ } : Node) = b
        at hfit ⊢
      have hbg : b.animator? = some (r.arena.spawn t h (d + 1)).1 := hb ▸ rfl
      have hempty : b.children = [] := hb ▸ rfl
      obtain ⟨hstart, -⟩ := start_settles hl hx hr hd object (hb ▸ hnew) (hb ▸ hdecl) hbg hempty hroom
      have hstartShows := start_shows β τ e hl hx t object char hroom
      rw [← hempty] at hstartShows
      have hlive := fun {k y} (hy : r.arena.get? k = some y) =>
        hl.wellFormed.stored.get?_spawn_of_live hroom hy
      have hspawned := fun k => Run.mem_spawned_start (g := k) r t h (d + 1) object char
      rw [← Run.arena_start r t h (d + 1) object char] at hlive
      generalize r.start t h (d + 1) object char = r₁ at hfit hstart hlive hspawned hstartShows ⊢
      generalize (r.arena.spawn t h (d + 1)).1 = child at hfit hbg hlive hspawned hstartShows ⊢
      obtain ⟨hshows, hsteady⟩ := hq (by omega) (by omega) (hstart.linked.clip hbg) hfit hstartShows
      have hhead := hp.head child b r₁
      refine ⟨⟨?_, ?_⟩, fun {k y} hy => ?_⟩
      · rw [Node.outline_of_head hhead, ← hb]
        simp only [Seat.fresh, hr]
        rfl
      · simp only [Seat.fresh, hr]
        exact ⟨child, (Node.animator?_of_head hhead).trans hbg, hshows⟩
      · obtain ⟨hk, hy'⟩ := hlive hy
        rw [hsteady hy' (by rw [hempty]; exact List.not_mem_nil), hspawned, or_iff_left hk]
  · have hr : ∀ t, s.resolve char ≠ some (.timeline t) := fun t ht => hr ⟨t, ht⟩
    rw [(enter_of_still hr object mat).1]
    refine ⟨?_, fun _ => Iff.rfl⟩
    unfold Seat.fresh
    cases hc : s.resolve char with
    | none => exact ⟨rfl, rfl, rfl⟩
    | some v =>
      cases v with
      | timeline t => exact absurd hc (hr t)
      | _ => exact ⟨rfl, rfl, rfl⟩

/-- What stands in a scene stands there still after a change elsewhere. -/
theorem stands_of_confined {q : Run} {cs : List Node} {gone come : List Handle}
    (hl : Linked s main r.arena parent d h n.children) (hsub : ∀ c ∈ cs, c ∈ n.children)
    (hst : List.Forall₂ (Stands (Under s.resolve r.arena (r.births β τ) (τ + 1) e)) cs ss)
    (hconf : Confined r.arena (h :: gone) q.arena come) (hgone : ∀ k ∈ carriedAll cs, k ∉ gone)
    (hborn : ∀ k ∈ carriedAll cs, k ∈ q.spawned ↔ k ∈ r.spawned) :
    List.Forall₂ (Stands (Under s.resolve q.arena (q.births β τ) (τ + 1) e)) cs ss := by
  refine forall₂_imp_of_mem hst fun c hc seat hs => hs.congr fun k hk => ?_
  have hin : k ∈ carriedAll cs := Node.mem_carriedAll.mpr ⟨c, hc, hk⟩
  have hall : k ∈ carriedAll n.children := Node.mem_carriedAll.mpr ⟨c, hsub c hc, hk⟩
  obtain ⟨y, hy⟩ := hl.driven.live_of_mem (List.mem_cons_of_mem h hall)
  have hkh : k ≠ h := by
    rintro rfl
    exact (List.nodup_cons.mp hl.nodup).1 hall
  have hout : k ∉ h :: gone := by
    rw [List.mem_cons, not_or]
    exact ⟨hkh, hgone k hin⟩
  exact ⟨(hconf.kept hy hout).1.trans hy.symm, Run.births_congr (hborn k hin)⟩

theorem stands_modify (hl : Linked s main r.arena parent d h n.children)
    (hst : List.Forall₂ (Stands (Under s.resolve r.arena (r.births β τ) (τ + 1) e)) n.children ss)
    (f : Animation → Animation) :
    List.Forall₂ (Stands (Under s.resolve (r.arena.modify h f) (r.births β τ) (τ + 1) e))
      n.children ss :=
  stands_of_confined (q := { r with arena := r.arena.modify h f }) hl (fun _ hc => hc) hst
    (Confined.modify r.arena h f) (fun _ _ => List.not_mem_nil) fun _ _ => Iff.rfl

/-- A command does to the nodes what it does to the scene. -/
theorem settle_stands (hp : p.Links s main) (hq : p.Performs s main m)
    (hl : Linked s main r.arena parent d h n.children) (hx : r.arena.get? h = some x) {c : Command}
    (hnew : ∀ id, c.placed? = some id → id ∉ n.childIds)
    (hdecl : ∀ id, c.placed? = some id → x.timeline.Declares id)
    (hde : d + e = s.options.maxNestingDepth) (hem : e ≤ m)
    (hfit : (c.settle s p h n r).arena.Fits)
    (hst : List.Forall₂ (Stands (Under s.resolve r.arena (r.births β τ) (τ + 1) e)) n.children ss) :
    List.Forall₂ (Stands (Under s.resolve (c.settle s p h n r).arena
        ((c.settle s p h n r).births β τ) (τ + 1) e))
      (c.arrange Command.nodes (fun x y m => (Command.enter s p h x y m r).1) n.children)
      (c.arrange Command.seats (Seat.fresh s.resolve e) ss) ∧
    Steady r (c.settle s p h n r) n.children := by
  have hinplace : c.placed? = none → List.Forall₂
      (Stands (Under s.resolve r.arena (r.births β τ) (τ + 1) e))
      (c.arrange Command.nodes (fun x y m => (Command.enter s p h x y m r).1) n.children)
      (c.arrange Command.seats (Seat.fresh s.resolve e) ss) := by
    intro hc
    refine Command.arrange_congr (Command.respects_stands _) c hst ?_
    rintro char object before mat rfl
    cases hc
  cases c with
  | place char object before mat =>
    obtain ⟨-, hconf, -⟩ := enter_settles hp hl hx (hnew object rfl) (hdecl object rfl) hfit
    obtain ⟨henter, hsteady⟩ := enter_stands β τ hp hq hl hx (hnew object rfl)
      (hdecl object rfl) hde hem hfit
    refine ⟨?_, fun hy _ => hsteady hy⟩
    have hstay := stands_of_confined hl (fun _ hc => hc) hst hconf (fun _ _ => List.not_mem_nil)
      fun k hk => by
        obtain ⟨y, hy⟩ := hl.driven.live_of_mem (List.mem_cons_of_mem h hk)
        exact hsteady hy
    refine Command.arrange_congr (Command.respects_stands _) _ hstay ?_
    rintro _ _ _ _ ⟨⟩
    exact henter
  | remove object =>
    have hlinked := (hl.settles_of_split object).linked
    obtain ⟨-, hconf, -⟩ := retireAll_settles _ _ r hlinked
    refine ⟨?_, fun _ _ => Run.mem_spawned_retireAll _⟩
    refine stands_of_confined hl (fun c hc => (List.mem_filter.mp hc).1) (hinplace rfl) hconf ?_
      fun k _ => Run.mem_spawned_retireAll _
    exact fun k hk hgone => hlinked.disjoint hgone hk
  | _ => exact ⟨hinplace rfl, fun _ _ => Iff.rfl⟩

theorem executeAll_stands (β : Handle → Nat) (τ : Nat) (hp : p.Links s main) (hq : p.Performs s main m) (t : Timeline)
    (cmds : List Command) (hl : Linked s main r.arena parent d h n.children)
    (hx : ∃ x, r.arena.get? h = some x ∧ x.timeline = t) (hnew : Command.Fresh n.childIds cmds)
    (hdecl : ∀ c ∈ cmds, ∀ id, c.placed? = some id → t.Declares id)
    (hde : d + e = s.options.maxNestingDepth) (hem : e ≤ m)
    (hfit : (Command.executeAll s p h cmds n r).2.arena.Fits)
    (hst : List.Forall₂ (Stands (Under s.resolve r.arena (r.births β τ) (τ + 1) e)) n.children ss) :
    List.Forall₂ (Stands (Under s.resolve (Command.executeAll s p h cmds n r).2.arena
        ((Command.executeAll s p h cmds n r).2.births β τ) (τ + 1) e))
      (Command.executeAll s p h cmds n r).1.children
      (Command.arrangeAll Command.seats (Seat.fresh s.resolve e) cmds ss) ∧
    Steady r (Command.executeAll s p h cmds n r).2 n.children := by
  induction cmds generalizing n r ss with
  | nil => exact ⟨hst, fun _ _ => Iff.rfl⟩
  | cons c cmds ih =>
    obtain ⟨x, hx, rfl⟩ := hx
    rw [Command.executeAll_cons] at hfit ⊢
    have hroom := hfit.mono (executeAll_grows hp.grows h cmds _ _)
    have hdeclc := hdecl c List.mem_cons_self
    obtain ⟨hfirst, -⟩ := settle_settles hp hl hx hnew.1 hdeclc hroom
    obtain ⟨hstands, hsteady⟩ := settle_stands hp hq hl hx hnew.1 hdeclc hde hem hroom hst
    obtain ⟨l, howner⟩ := hfirst.owner hx
    have hnew' := hnew.2
    rw [← childIds_arrange (s := s) hp.head h c n r] at hnew'
    rw [← Run.births_emit (e := .command h c.kind c.object (c.execute s p h n r).1) (by simp) β τ]
      at hstands
    obtain ⟨hrest, hsteady'⟩ := ih (n := { n with children := _ }) (r := Run.emit _ _) hfirst.linked
      ⟨_, howner, rfl⟩ hnew' (fun c' hc' => hdecl c' (List.mem_cons_of_mem _ hc')) hfit hstands
    exact ⟨hrest, Steady.trans hsteady hfirst (hsteady'.of_emit (by simp))⟩

/-- Amid the nested plays, the clips still to play stand where they stood, all other nodes where they get
to. -/
def StandsAmid (resolve : CharId → Option Resolved) (a : Arena) (β : Handle → Nat) (τ e : Nat)
    (gs : List Handle) (c : Node) (seat : Seat) : Prop :=
  (∀ g ∈ gs, c.animator? = some g → Stands (Under resolve a β τ e) c seat) ∧
    ((∀ g ∈ gs, c.animator? ≠ some g) → Stands (Under resolve a β (τ + 1) e) c seat.older)

theorem amid_of_stands (hl : Linked s main r.arena parent d h n.children)
    (hx : r.arena.get? h = some x)
    (hst : List.Forall₂ (Stands (Under s.resolve r.arena β τ e)) n.children ss) :
    List.Forall₂ (StandsAmid s.resolve r.arena β τ e x.children) n.children ss := by
  have hperm := hl.driven.perm_hosted hx
  refine forall₂_imp_of_mem hst fun c hc seat hs => ⟨fun _ _ _ => hs, fun hnone => ?_⟩
  refine hs.older_of_bare ?_
  cases hg : c.animator? with
  | none => rfl
  | some g => exact absurd hg (hnone g (hperm.symm.subset (Node.mem_hosted.mpr ⟨c, hc, hg⟩)))

theorem stands_of_amid {resolve : CharId → Option Resolved} {a : Arena} {cs : List Node}
    (hst : List.Forall₂ (StandsAmid resolve a β τ e []) cs ss) :
    List.Forall₂ (Stands (Under resolve a β (τ + 1) e)) cs (ss.map Seat.older) := by
  rw [List.forall₂_map_right_iff]
  exact hst.imp fun _ _ hs => hs.2 fun _ hg => absurd hg List.not_mem_nil

theorem forall₂_exchange {α γ : Type} {P Q : α → γ → Prop} {pre post : List α} {x x' : α}
    {ys : List γ} (hp : List.Forall₂ P (pre ++ x :: post) ys)
    (hother : ∀ z ∈ pre ++ post, ∀ y, P z y → Q z y) (hx : ∀ y, P x y → Q x' y) :
    List.Forall₂ Q (pre ++ x' :: post) ys := by
  induction pre generalizing ys with
  | nil =>
    obtain _ | ⟨hxy, hrest⟩ := hp
    exact .cons (hx _ hxy) (forall₂_imp_of_mem hrest hother)
  | cons z pre ih =>
    obtain _ | ⟨hzy, hrest⟩ := hp
    exact .cons (hother z List.mem_cons_self _ hzy)
      (ih hrest fun w hw => hother w (List.mem_cons_of_mem _ hw))

/-- A clip that stands in a scene plays, and then stands there with one tick more. -/
theorem clip_stands (β : Handle → Nat) (τ : Nat) (hp : p.Links s main) (hq : p.Performs s main m) {g : Handle} {c : Node}
    {seat : Seat} (hl : Linked s main r.arena (some h) (d + 1) g c.children)
    (hg : c.animator? = some g) (hde : d + e = s.options.maxNestingDepth) (hem : e ≤ m)
    (hfit : (p g c r).2.arena.Fits)
    (hst : Stands (Under s.resolve r.arena (r.births β τ) τ e) c seat) :
    Stands (Under s.resolve (p g c r).2.arena ((p g c r).2.births β τ) (τ + 1) e) (p g c r).1
        seat.older ∧
      Steady r (p g c r).2 c.children := by
  obtain ⟨t, j, e', hclip, rfl, hshows⟩ := hst.shows hg
  obtain ⟨hnext, hsteady⟩ := hq (by omega) (by omega) hl hfit hshows
  have hhead := hp.head g c r
  refine ⟨⟨(Node.outline_of_head hhead).trans hst.1, ?_⟩, hsteady⟩
  simp only [Seat.older, hclip, Option.map_some]
  exact ⟨g, (Node.animator?_of_head hhead).trans hg, hnext⟩

theorem nested_stands (β : Handle → Nat) (τ : Nat) (hp : p.Links s main) (hq : p.Performs s main m)
    {g : Handle} {gs : List Handle} {c : Node} {pre post : List Node}
    (hl : Linked s main r.arena parent d h n.children) (hcs : n.children = pre ++ c :: post)
    (hg : c.animator? = some g) (hnodup : (g :: gs).Nodup)
    (hde : d + e = s.options.maxNestingDepth) (hem : e ≤ m) (hfit : (p g c r).2.arena.Fits)
    (hst : List.Forall₂ (StandsAmid s.resolve r.arena (r.births β τ) τ e (g :: gs)) n.children ss) :
    Settles s main parent d h r.arena n.children (p g c r).2.arena (pre ++ (p g c r).1 :: post) ∧
    List.Forall₂ (StandsAmid s.resolve (p g c r).2.arena ((p g c r).2.births β τ) τ e gs)
      (pre ++ (p g c r).1 :: post) ss ∧
    Steady r (p g c r).2 n.children := by
  have hclip := hl.clip_of_split hcs hg
  obtain ⟨hturn, -, hbeside⟩ := hl.turn hp hcs hg hfit
  have hhead := hp.head g c r
  have hdriven := hl.driven
  rw [hcs] at hst hdriven
  obtain ⟨seat, -, hseat⟩ := exists_of_forall₂ hst (by simp : c ∈ pre ++ c :: post)
  have hwaits := hseat.1 g List.mem_cons_self hg
  obtain ⟨-, hsteady⟩ := clip_stands β τ hp hq hclip hg hde hem hfit hwaits
  -- the siblings carry other animators, which are live and stay as they are
  have hstay : ∀ b ∈ pre ++ post, ∀ k ∈ b.carried, (p g c r).2.arena.get? k = r.arena.get? k ∧
      (p g c r).2.births β τ k = r.births β τ k := by
    intro b hb k hk
    have hall : k ∈ carriedAll (pre ++ c :: post) :=
      Node.mem_carriedAll.mpr ⟨b, List.perm_middle.symm.subset (List.mem_cons_of_mem c hb), hk⟩
    obtain ⟨y, hy⟩ := hdriven.live_of_mem (List.mem_cons_of_mem h hall)
    obtain ⟨hout, hsame⟩ := hbeside b hb k hk
    refine ⟨hsame, Run.births_congr (hsteady hy ?_)⟩
    exact fun hin => hout (List.mem_cons_of_mem _ hin)
  refine ⟨hturn, ?_, fun hy hk => hsteady hy fun hin => hk ?_⟩
  · refine forall₂_exchange hst (fun b hb seat hs => ⟨fun k hk hbk => ?_, fun hnone => ?_⟩)
      fun seat hs => ⟨fun k hk hck => ?_, fun _ => ?_⟩
    · exact (hs.1 k (List.mem_cons_of_mem _ hk) hbk).congr (hstay b hb)
    · refine (hs.2 fun k hk hbk => ?_).congr (hstay b hb)
      rcases List.mem_cons.mp hk with rfl | hk
      · exact (hbeside b hb k (Node.mem_carried.mpr (.inl hbk))).1 List.mem_cons_self
      · exact hnone k hk hbk
    · rw [Node.animator?_of_head hhead, hg] at hck
      cases hck
      exact absurd hk (List.nodup_cons.mp hnodup).1
    · exact (clip_stands β τ hp hq hclip hg hde hem hfit (hs.1 g List.mem_cons_self hg)).1
  · rw [hcs]
    exact Node.mem_carriedAll_of_clip (by simp) hg (List.mem_cons_of_mem _ hin)

/-- The nested animators play one after another, each once. -/
theorem playChildren_stands (hp : p.Links s main) (hq : p.Performs s main m) (gs : List Handle)
    (hl : Linked s main r.arena parent d h n.children) (hin : ∀ g ∈ gs, g ∈ hosted n.children)
    (hnodup : gs.Nodup) (hde : d + e = s.options.maxNestingDepth) (hem : e ≤ m)
    (hfit : (playChildren s p gs n r).2.arena.Fits)
    (hst : List.Forall₂ (StandsAmid s.resolve r.arena (r.births β τ) τ e gs) n.children ss) :
    List.Forall₂ (StandsAmid s.resolve (playChildren s p gs n r).2.arena
        ((playChildren s p gs n r).2.births β τ) τ e [])
      (playChildren s p gs n r).1.children ss ∧
    Steady r (playChildren s p gs n r).2 n.children := by
  induction gs generalizing n r with
  | nil => exact ⟨hst, fun _ _ => Iff.rfl⟩
  | cons g gs ih =>
    obtain ⟨pre, c, post, hcs, hg, heq⟩ := playChildren_cons s p gs (hin g List.mem_cons_self) r
    rw [heq] at hfit ⊢
    have hroom := hfit.mono (playChildren_grows hp.grows gs _ _)
    obtain ⟨hfirst, hamid, hsteady⟩ := nested_stands β τ hp hq hl hcs hg hnodup hde hem hroom hst
    have hhosted : ∀ k ∈ gs, k ∈ hosted (pre ++ (p g c r).1 :: post) := by
      rw [Node.hosted_exchange (hp.head g c r), ← hcs]
      exact fun k hk => hin k (List.mem_cons_of_mem _ hk)
    obtain ⟨hrest, hsteady'⟩ := ih hfirst.linked hhosted (List.nodup_cons.mp hnodup).2 hfit hamid
    exact ⟨hrest, Steady.trans hsteady hfirst hsteady'⟩

/-- An animator that has got as far as a scene plays the frame of the scene, if the timeline has it. -/
theorem playFrame_scene (s : Setting) (p : Player) {sc : Scene} (hx : r.arena.get? h = some x)
    (hcursor : x.cursor = sc.cursor) (hids : sc.seats.map Seat.id = n.childIds) :
    (x.timeline.frames[sc.number x.timeline]? = none ∧ sc.commands x.timeline = [] ∧
      playFrame s p h x.timeline n r = (n, r.seek h (sc.number x.timeline))) ∨
    ((x.timeline.frames[sc.number x.timeline]?).isSome ∧
      Command.Fresh n.childIds (sc.commands x.timeline) ∧
      (∀ c ∈ sc.commands x.timeline, ∀ id, c.placed? = some id → x.timeline.Declares id) ∧
      ∃ report, playFrame s p h x.timeline n r =
        let out := Command.executeAll s p h (sc.commands x.timeline) n
          ((r.seek h (sc.number x.timeline)).emit (.frame report))
        (out.1, out.2.advance h)) := by
  have hnumber : (if x.cursor = x.timeline.frameCount then 0 else x.cursor) =
      sc.number x.timeline := by
    simp only [Scene.number, Scene.looped, hcursor, beq_iff_eq]
  unfold Scene.commands
  rw [hids]
  cases hframe : x.timeline.frames[sc.number x.timeline]? with
  | none =>
    refine .inl ⟨rfl, rfl, ?_⟩
    rw [playFrame_of_none s p hx (hnumber ▸ hframe), hnumber]
  | some frame =>
    refine .inr ⟨rfl, Plan.fresh_ofFrame n.childIds frame _, Plan.declares_of_mem_ofFrame hframe,
      (Plan.ofFrame n.childIds frame (sc.looped x.timeline)).report h (sc.number x.timeline)
        (sc.looped x.timeline), ?_⟩
    rw [playFrame_eq s p hx (hnumber ▸ hframe), hnumber, hcursor]
    rfl

theorem playFrame_shows (hp : p.Links s main) (hq : p.Performs s main m) {j : Nat}
    (hl : Linked s main r.arena parent d h n.children) (hx : r.arena.get? h = some x)
    (hcount : x.timeline.frameCount ≠ 0)
    (hcursor : x.cursor = (Scene.after s.resolve e x.timeline j).cursor)
    (hhosts : List.Forall₂ (Hosts n.children) x.children
      (Scene.after s.resolve e x.timeline j).order) (hage : τ = r.births β τ h + j)
    (hde : d + e = s.options.maxNestingDepth) (hem : e ≤ m)
    (hfit : (playFrame s p h x.timeline n r).2.arena.Fits)
    (hst : List.Forall₂ (Stands (Under s.resolve r.arena (r.births β τ) (τ + 1) e)) n.children
      ((Scene.after s.resolve e x.timeline j).seats.map Seat.older)) :
    Shows s.resolve (playFrame s p h x.timeline n r).2.arena
        ((playFrame s p h x.timeline n r).2.births β τ) (τ + 1) e x.timeline (j + 1) h
        (playFrame s p h x.timeline n r).1.children ∧
      Steady r (playFrame s p h x.timeline n r).2 n.children := by
  rw [shows_iff, Scene.after, Scene.tick, if_neg hcount]
  have hids : (Scene.after s.resolve e x.timeline j).seats.map Seat.id = n.childIds := by
    rw [Node.childIds, ← map_id_of_stands hst, List.map_map]
    rfl
  generalize Scene.after s.resolve e x.timeline j = sc at hcursor hhosts hst hids ⊢
  have hnextAge : ∀ {b : Nat}, b = r.births β τ h → τ + 1 = b + (j + 1) := fun hb => by omega
  have hplay := playFrame_scene s p hx hcursor hids
  generalize sc.number x.timeline = number at hplay ⊢
  have hseek : List.Forall₂ (Stands (Under s.resolve (r.seek h number).arena
      ((r.seek h number).births β τ) (τ + 1) e)) n.children (sc.seats.map Seat.older) :=
    stands_modify hl hst _
  obtain ⟨hframe, hcommands, heq⟩ | ⟨hframe, hnew, hdecl, report, heq⟩ := hplay
  · rw [heq, hframe, hcommands]
    exact ⟨⟨⟨_, Run.get?_seek hx number, rfl, rfl, hhosts⟩, hnextAge rfl, hseek⟩, fun _ _ => Iff.rfl⟩
  · rw [heq] at hfit ⊢
    rw [Arena.Fits, Run.size_advance] at hfit
    rw [if_pos hframe]
    dsimp only at hfit ⊢
    generalize sc.commands x.timeline = cmds at hnew hdecl hfit ⊢
    have hx' := Run.get?_seek hx number
    have hlinked := hl.seek number
    rw [← Run.births_emit (e := .frame report) (by simp) β τ] at hseek
    rw [← Run.arena_emit (r.seek h number) (.frame report)] at hx' hlinked hseek
    obtain ⟨hexecuted, -⟩ := executeAll_settles hp x.timeline _ hlinked ⟨_, hx', rfl⟩ hnew hdecl hfit
    obtain ⟨l, howner, hlisted⟩ :=
      executeAll_hosts (e := e) hp _ hlinked hx' hnew hdecl hde hfit hhosts
    obtain ⟨hplayed, hsteady⟩ := executeAll_stands β τ hp hq x.timeline _ hlinked ⟨_, hx', rfl⟩ hnew
      hdecl hde hem hfit hseek
    generalize Command.executeAll s p h cmds n _ = out at hexecuted howner hlisted hplayed hsteady ⊢
    have hsteady' : Steady r out.2 n.children :=
      Steady.of_seek (Steady.of_emit hsteady (by simp))
    have hself : h ∉ carriedAll n.children := (List.nodup_cons.mp hl.nodup).1
    exact ⟨⟨⟨_, Run.get?_advance howner, rfl, rfl, hlisted⟩,
      hnextAge (Run.births_congr (hsteady' hx hself)), stands_modify hexecuted.linked hplayed _⟩,
      hsteady'⟩

end Commands

variable {s : Setting} {main : Timeline} {m : Nat} {p : Player}

theorem playStep_performs (hp : p.Links s main) (hq : p.Performs s main m) :
    (playStep s p).Performs s main (m + 1) := by
  intro β τ e t j parent d h n r hem hde hl hfit hshows
  obtain ⟨⟨x, hx, rfl, hcursor, hhosts⟩, hage, hst⟩ := shows_iff.mp hshows
  have hem : e ≤ m := Nat.le_of_lt_succ hem
  by_cases hcount : x.timeline.frameCount = 0
  · rw [playStep_of_empty s p hx hcount]
    rw [Scene.after_of_empty hcount] at hst hcursor hhosts
    have hempty : n.children = [] := List.forall₂_nil_right_iff.mp hst
    refine ⟨shows_iff.mpr ⟨⟨x, hx, rfl, ?_⟩, ?_, ?_⟩, fun _ _ => Iff.rfl⟩
    · rw [Scene.after_of_empty hcount]
      exact ⟨hcursor, hhosts⟩
    · show τ + 1 = r.births β τ h + (j + 1)
      omega
    · rw [Scene.after_of_empty hcount]
      exact List.forall₂_nil_right_iff.mpr hempty
  · rw [playStep_eq s p hx hcount] at hfit ⊢
    dsimp only at hfit ⊢
    have hperm := hl.driven.perm_hosted hx
    have hroom := hfit.mono (playFrame_grows hp.grows h x.timeline _ _)
    have hin : ∀ g ∈ x.children, g ∈ hosted n.children := fun g hg => hperm.subset hg
    have hnodup := hl.wellFormed.forest.nodup hx
    have hamid := amid_of_stands hl hx hst
    obtain ⟨hchildren, howner, -⟩ := playChildren_settles hp x.children hl hin hroom
    obtain ⟨hplayed, hsteady⟩ :=
      playChildren_stands hp hq x.children hl hin hnodup hde hem hroom hamid
    have hself : h ∉ carriedAll n.children := (List.nodup_cons.mp hl.nodup).1
    have hlisted := hhosts.imp fun _ _ hg => playChildren_hosts (s := s) (r := r) hp.head x.children hg
    generalize playChildren s p x.children n r = out
      at hfit hchildren howner hplayed hsteady hlisted ⊢
    obtain ⟨n', r'⟩ := out
    have hst' := stands_of_amid hplayed
    have hage' : τ = r'.births β τ h + j := by
      rw [Run.births_congr (hsteady hx hself)]
      exact hage
    obtain ⟨hshows', hsteady'⟩ := playFrame_shows hp hq hchildren.linked (howner.trans hx) hcount
      hcursor hlisted hage' hde hem hfit hst'
    exact ⟨hshows', Steady.trans hsteady hchildren hsteady'⟩

theorem playChain_performs (s : Setting) (main : Timeline) (m : Nat) :
    (playChain s idle m).Performs s main m := by
  induction m with
  | zero =>
    intro β τ e t j parent d h n r hem
    exact absurd hem (Nat.not_lt_zero e)
  | succ m ih => exact playStep_performs (playChain_links s main m) ih

end SceneReel
