import SceneReel.Proofs.Arena.Count
import SceneReel.Proofs.Playback.Peak
import SceneReel.Proofs.Playback.ScenePlay

/-!
Playing takes the slots that the scene says. Whatever else is in the arena, a tick adds slots only for
as many animators as are live at once, and those of the scene are never more than its peak.
-/
namespace SceneReel

open Node (hosted carriedAll)

theorem Confined.size_eq {a a' : Arena} {hs hs' : List Handle} (hc : Confined a hs a' hs')
    (hfit : a.Fits) (hfit' : a'.Fits) (hnodup : hs.Nodup) (hnodup' : hs'.Nodup)
    (hlive : ∀ g ∈ hs, ∃ x, a.get? g = some x) (hlive' : ∀ g ∈ hs', ∃ x, a'.get? g = some x) :
    a.size + hs'.length = a'.size + hs.length := by
  have hcount : ∀ {a : Arena} {hs : List Handle}, a.Fits → hs.Nodup →
      (∀ g ∈ hs, ∃ x, a.get? g = some x) →
      a.size = hs.length + (a.handles.filter (· ∉ hs)).length := by
    intro a hs hfit hnodup hlive
    have hinside : (a.handles.filter (· ∈ hs)).Perm hs := by
      refine (List.perm_ext_iff_of_nodup ((Arena.nodup_handles hfit).filter _) hnodup).mpr fun g => ?_
      rw [List.mem_filter, Arena.mem_handles hfit, decide_eq_true_iff]
      exact and_iff_right_of_imp (hlive g)
    have hsplit := (List.filter_append_perm (· ∈ hs) a.handles).length_eq
    rw [List.length_append, hinside.length_eq, Arena.length_handles] at hsplit
    rw [← hsplit]
    simp
  have houtside : (a.handles.filter (· ∉ hs)).Perm (a'.handles.filter (· ∉ hs')) := by
    refine (List.perm_ext_iff_of_nodup ((Arena.nodup_handles hfit).filter _)
      ((Arena.nodup_handles hfit').filter _)).mpr fun g => ?_
    rw [List.mem_filter, List.mem_filter, Arena.mem_handles hfit, Arena.mem_handles hfit',
      decide_eq_true_iff, decide_eq_true_iff]
    constructor
    · rintro ⟨⟨x, hx⟩, hg⟩
      obtain ⟨hx', hg'⟩ := hc.kept hx hg
      exact ⟨⟨x, hx'⟩, hg'⟩
    · rintro ⟨⟨x, hx⟩, hg⟩
      obtain ⟨hx', hg'⟩ := (hc.origin hx).resolve_left hg
      exact ⟨⟨x, hx'⟩, hg'⟩
  have hbefore := hcount hfit hnodup hlive
  have hafter := hcount hfit' hnodup' hlive'
  have hsame := houtside.length_eq
  omega

/-- From one linked state to another the arena changes by what the nodes carry. -/
theorem Linked.size_eq {s : Setting} {main : Timeline} {parent : Option Handle} {d : Nat} {h : Handle}
    {a a' : Arena} {cs cs' : List Node} (hl : Linked s main a parent d h cs)
    (hl' : Linked s main a' parent d h cs')
    (hc : Confined a (h :: carriedAll cs) a' (h :: carriedAll cs')) (hfit : a.Fits)
    (hfit' : a'.Fits) : a.size + (carriedAll cs').length = a'.size + (carriedAll cs).length := by
  have hsize := hc.size_eq hfit hfit' hl.nodup hl'.nodup (fun _ => hl.driven.live_of_mem)
    (fun _ => hl'.driven.live_of_mem)
  simp only [List.length_cons] at hsize
  omega

section Weight

variable {resolve : CharId → Option Resolved} {a : Arena} {β : Handle → Nat} {σ e : Nat}
  {R : Timeline → Nat → Handle → List Node → Prop} {b : Timeline → Nat → Nat} {t : Timeline} {j : Nat}
  {h : Handle} {c : Node} {cs : List Node} {s : Seat} {ss : List Seat}

theorem Stands.length_carried (hs : Stands R c s)
    (hR : ∀ t j g cs, R t j g cs → (carriedAll cs).length = b t j) :
    c.carried.length = s.weigh b := by
  obtain ⟨-, hclip⟩ := hs
  unfold Seat.weigh
  rw [Node.carried_eq, Node.handles]
  cases hc : s.clip? with
  | none =>
    rw [hc] at hclip
    rw [hclip.1, hclip.2]
    rfl
  | some q =>
    rw [hc] at hclip
    obtain ⟨g, hg, hbelow⟩ := hclip
    rw [hg, List.length_append, hR _ _ _ _ hbelow]
    simp [Nat.add_comm]

theorem length_carriedAll_of_forall₂ {P : Node → Seat → Prop} {f : Seat → Nat}
    (hp : List.Forall₂ P cs ss) (hf : ∀ c ∈ cs, ∀ s, P c s → c.carried.length = f s) :
    (carriedAll cs).length = Seat.total f ss := by
  induction hp with
  | nil => rfl
  | cons hcs _ ih =>
    rw [Node.carriedAll_cons, List.length_append, Seat.total,
      hf _ List.mem_cons_self _ hcs, ih fun c hc => hf c (List.mem_cons_of_mem _ hc)]

theorem Under.length_carriedAll (hs : Under resolve a β σ e t j h cs) :
    (carriedAll cs).length = Scene.below resolve e t j := by
  induction e generalizing t j h cs with
  | zero => exact hs.elim
  | succ e ih =>
    obtain ⟨-, -, hstands⟩ := shows_iff.mp hs
    exact length_carriedAll_of_forall₂ hstands fun c _ s hs => hs.length_carried fun _ _ _ _ => ih

/-- The nodes of a scene carry as many animators as the scene says. -/
theorem length_carriedAll_of_stands
    (hst : List.Forall₂ (Stands (Under resolve a β σ e)) cs ss) :
    (carriedAll cs).length = Seat.weighAll (Scene.below resolve e) ss :=
  length_carriedAll_of_forall₂ hst fun _ _ _ hs =>
    hs.length_carried fun _ _ _ _ => Under.length_carriedAll

end Weight

/-- There is room for the slots that the arena ends with, or for so many. -/
def Arena.Room (a a' : Arena) (k : Nat) : Prop :=
  a'.Fits ∨ a.Fits ∧ k ≤ UInt32.size

namespace Arena.Room

variable {a a' a'' : Arena} {i k : Nat}

theorem fits (hr : a.Room a' k) (hsize : a'.slots.size = max a.slots.size k) : a'.Fits := by
  rcases hr with hfit | ⟨hfit, hk⟩
  · exact hfit
  · unfold Arena.Fits at hfit ⊢
    omega

theorem fits_start (hr : a.Room a' k) (hle : a.slots.size ≤ a'.slots.size) : a.Fits := by
  rcases hr with hfit | ⟨hfit, -⟩
  · exact hfit.mono hle
  · exact hfit

theorem before (hr : a.Room a'' k) (hle : a'.slots.size ≤ a''.slots.size) (hk : i ≤ k) :
    a.Room a' i := by
  rcases hr with hfit | ⟨hfit, hroom⟩
  · exact .inl (hfit.mono hle)
  · exact .inr ⟨hfit, hk.trans hroom⟩

theorem after (hr : a.Room a'' k) (hfit : a'.Fits) (hk : i ≤ k) : a'.Room a'' i := by
  rcases hr with hfit' | ⟨-, hroom⟩
  · exact .inl hfit'
  · exact .inr ⟨hfit, hk.trans hroom⟩

end Arena.Room

/-- A player adds slots for the peak of the scene, `out` animators being outside, and for no more. -/
def Player.Fills (s : Setting) (main : Timeline) (m : Nat) (p : Player) : Prop :=
  ∀ (out : Nat) {β τ e t j parent d h n r}, e < m → d + e = s.options.maxNestingDepth →
    Linked s main r.arena parent d h n.children →
    Shows s.resolve r.arena (r.births β τ) τ e t j h n.children →
    r.arena.size = out + 1 + (carriedAll n.children).length →
    r.arena.Room (p h n r).2.arena (out + 1 + Scene.peakBelow s.resolve (e + 1) t j) →
    (p h n r).2.arena.slots.size =
      max r.arena.slots.size (out + 1 + Scene.peakBelow s.resolve (e + 1) t j)

section Commands

variable {s : Setting} {main : Timeline} {m : Nat} {p : Player} {parent : Option Handle} {d e : Nat}
  {h : Handle} {n : Node} {r : Run} {x : Animation} {β : Handle → Nat} {τ out : Nat} {ss : List Seat}

theorem Linked.size_le_slots {a : Arena} {cs : List Node} (hl : Linked s main a parent d h cs)
    (hfit : a.Fits) : a.size ≤ a.slots.size :=
  Nat.le.intro (hl.wellFormed.stored.size_add_length_free hfit)

theorem Linked.size_slots_spawn {a : Arena} {cs : List Node} (hl : Linked s main a parent d h cs)
    (hfit : a.Fits) (t : Timeline) (k : Nat) :
    (a.spawn t h k).2.slots.size = max a.slots.size (a.size + 1) := by
  unfold Arena.spawn
  rw [Arena.size_modify]
  exact hl.wellFormed.stored.size_slots_alloc hfit t (some h) k

theorem enter_fills (β : Handle → Nat) (τ : Nat) (hp : p.Links s main) (hf : p.Fills s main m)
    (hl : Linked s main r.arena parent d h n.children) (hx : r.arena.get? h = some x)
    {char : CharId} {object : ObjectId} {before : Option ObjectId} {mat : Geometry.Matrix}
    (hnew : object ∉ n.childIds) (hdecl : x.timeline.Declares object)
    (hde : d + e = s.options.maxNestingDepth) (hem : e ≤ m)
    (hroom : r.arena.Room (Command.enter s p h char object mat r).2.arena
      (r.arena.size + (Command.place char object before mat).debut s.resolve e
        (Scene.peakBelow s.resolve e))) :
    (Command.enter s p h char object mat r).2.arena.slots.size =
      max r.arena.slots.size (r.arena.size + (Command.place char object before mat).debut s.resolve e
        (Scene.peakBelow s.resolve e)) := by
  have hfit := hroom.fits_start (enter_grows hp.grows h char object mat r)
  have hslots := hl.size_le_slots hfit
  by_cases hr : ∃ t, s.resolve char = some (.timeline t)
  · obtain ⟨t, hr⟩ := hr
    cases e with
    | zero =>
      rw [hl.enter_of_le hr (by omega)]
      simp only [Command.debut, Seat.fresh, hr]
      show r.arena.slots.size = _
      omega
    | succ e =>
      have hd : d < s.options.maxNestingDepth := by omega
      have hdebut : (Command.place char object before mat).debut s.resolve (e + 1)
          (Scene.peakBelow s.resolve (e + 1)) = Scene.peakBelow s.resolve (e + 1) t 0 + 1 := by
        simp only [Command.debut, Seat.fresh, hr]
      rw [hl.enter_of_lt hr hd, hdebut] at hroom ⊢
      have hspawn := hl.size_slots_spawn hfit t (d + 1)
      have hspawnFits : (r.arena.spawn t h (d + 1)).2.Fits :=
        (hroom.before (hp.grows _ _ (r.start ..)) (by omega)).fits hspawn
      generalize hb : ({ id := _, kind := .clip char (some _), transform := _ } : Node) = b
        at hroom ⊢
      have hbg : b.animator? = some (r.arena.spawn t h (d + 1)).1 := hb ▸ rfl
      have hempty : b.children = [] := hb ▸ rfl
      obtain ⟨hstart, -⟩ := start_settles hl hx hr hd object (hb ▸ hnew) (hb ▸ hdecl) hbg hempty
        hspawnFits
      have hshows := start_shows β τ e hl hx t object char hspawnFits
      have hcount := hl.size_eq hstart.linked hstart.confined hfit hspawnFits
      have hborn : (r.start t h (d + 1) object char).arena.size =
          r.arena.size + 1 + (carriedAll b.children).length := by
        simp [Node.carried_eq, hbg, Node.handles, hempty] at hcount ⊢
        omega
      rw [← hempty] at hshows
      rw [← Run.arena_start r t h (d + 1) object char] at hspawn
      rw [hf r.arena.size (by omega) (by omega) (hstart.linked.clip hbg) hshows hborn
        (hroom.after hspawnFits (by omega)), hspawn]
      omega
  · have hr : ∀ t, s.resolve char ≠ some (.timeline t) := fun t ht => hr ⟨t, ht⟩
    rw [(enter_of_still hr object mat).1]
    simp only [Command.debut, Seat.fresh_of_still hr]
    omega

/-- Of the commands only those that start a clip add slots. -/
theorem settle_fills (β : Handle → Nat) (τ : Nat) (hp : p.Links s main) (hf : p.Fills s main m)
    (hl : Linked s main r.arena parent d h n.children) (hx : r.arena.get? h = some x) {c : Command}
    (hnew : ∀ id, c.placed? = some id → id ∉ n.childIds)
    (hdecl : ∀ id, c.placed? = some id → x.timeline.Declares id)
    (hde : d + e = s.options.maxNestingDepth) (hem : e ≤ m)
    (hroom : r.arena.Room (c.settle s p h n r).arena
      (r.arena.size + c.debut s.resolve e (Scene.peakBelow s.resolve e))) :
    (c.settle s p h n r).arena.slots.size =
      max r.arena.slots.size (r.arena.size + c.debut s.resolve e (Scene.peakBelow s.resolve e)) := by
  have hfit := hroom.fits_start (settle_grows hp.grows h c n r)
  have hslots := hl.size_le_slots hfit
  cases c with
  | place char object before mat =>
    exact enter_fills β τ hp hf hl hx (hnew object rfl) (hdecl object rfl) hde hem hroom
  | remove object =>
    have hsame : ((Command.remove object).settle s p h n r).arena.slots.size = r.arena.slots.size :=
      size_retireAll _ _ _
    rw [hsame]
    simp only [Command.debut]
    omega
  | _ =>
    simp only [Command.settle, Command.debut]
    omega

theorem executeAll_fills (β : Handle → Nat) (τ out : Nat) (hp : p.Links s main)
    (hq : p.Performs s main m) (hf : p.Fills s main m) (t : Timeline) (cmds : List Command)
    (hl : Linked s main r.arena parent d h n.children)
    (hx : ∃ x, r.arena.get? h = some x ∧ x.timeline = t) (hnew : Command.Fresh n.childIds cmds)
    (hdecl : ∀ c ∈ cmds, ∀ id, c.placed? = some id → t.Declares id)
    (hde : d + e = s.options.maxNestingDepth) (hem : e ≤ m)
    (hst : List.Forall₂ (Stands (Under s.resolve r.arena (r.births β τ) (τ + 1) e)) n.children ss)
    (hsize : r.arena.size = out + 1 + (carriedAll n.children).length)
    (hroom : r.arena.Room (Command.executeAll s p h cmds n r).2.arena (out + 1 +
      Command.peak s.resolve e (Scene.below s.resolve e) (Scene.peakBelow s.resolve e) cmds ss)) :
    (Command.executeAll s p h cmds n r).2.arena.slots.size = max r.arena.slots.size (out + 1 +
      Command.peak s.resolve e (Scene.below s.resolve e) (Scene.peakBelow s.resolve e) cmds ss) := by
  induction cmds generalizing n r ss with
  | nil =>
    have hslots := hl.size_le_slots (hroom.fits_start (Nat.le_refl _))
    show r.arena.slots.size = _
    rw [Command.peak]
    omega
  | cons c cmds ih =>
    obtain ⟨x, hx, rfl⟩ := hx
    have hfit := hroom.fits_start (executeAll_grows hp.grows h (c :: cmds) n r)
    have hweight := length_carriedAll_of_stands hst
    rw [Command.peak] at hroom ⊢
    rw [Command.executeAll_cons] at hroom ⊢
    have hgrow := executeAll_grows (s := s) hp.grows h cmds
    generalize hrun : Run.emit _ _ = run at hroom ⊢
    have harena : run.arena = (c.settle s p h n r).arena := hrun ▸ rfl
    have hbirths : run.births β τ = (c.settle s p h n r).births β τ :=
      hrun ▸ Run.births_emit (by simp) β τ
    have hdeclc := hdecl c List.mem_cons_self
    have hfirstRoom := hroom.before (hgrow _ run)
      (i := r.arena.size + c.debut s.resolve e (Scene.peakBelow s.resolve e)) (by omega)
    rw [harena] at hfirstRoom
    have hfirstSize := settle_fills β τ hp hf hl hx hnew.1 hdeclc hde hem hfirstRoom
    have hfirstFits := hfirstRoom.fits hfirstSize
    obtain ⟨hfirst, -⟩ := settle_settles hp hl hx hnew.1 hdeclc hfirstFits
    obtain ⟨hstands, -⟩ := settle_stands hp hq hl hx hnew.1 hdeclc hde hem hfirstFits hst
    obtain ⟨l, howner⟩ := hfirst.owner hx
    have hnew' := hnew.2
    rw [← childIds_arrange (s := s) hp.head h c n r] at hnew'
    have hcount := hl.size_eq hfirst.linked hfirst.confined hfit hfirstFits
    rw [← harena] at hfirst howner hfirstSize hfirstFits hcount
    rw [← harena, ← hbirths] at hstands
    rw [ih hfirst.linked ⟨_, howner, rfl⟩ hnew'
      (fun c' hc' => hdecl c' (List.mem_cons_of_mem _ hc')) hstands (by dsimp only; omega)
      (hroom.after hfirstFits (by omega)), hfirstSize]
    omega

theorem Linked.eq_of_animator {a : Arena} {cs : List Node} {c c' : Node} {g : Handle}
    (hl : Linked s main a parent d h cs) (hc : c ∈ cs) (hc' : c' ∈ cs) (hg : c.animator? = some g)
    (hg' : c'.animator? = some g) : c' = c := by
  obtain ⟨pre, post, rfl⟩ := List.append_of_mem hc
  have hfront := (hl.settles_of_perm List.perm_middle).linked
  obtain ⟨-, hapart⟩ := hfront.nodup_cons hg
  rcases List.mem_cons.mp (List.perm_middle.subset hc') with rfl | hin
  · rfl
  · refine absurd (List.mem_cons_of_mem h ?_) (hapart g List.mem_cons_self)
    exact Node.mem_carriedAll.mpr ⟨c', hin, Node.mem_carried.mpr (.inl hg')⟩

theorem Linked.mem_iff_of_hosts {a : Arena} {cs : List Node} {c : Node} {g : Handle}
    {gs : List Handle} {ids : List ObjectId} (hl : Linked s main a parent d h cs)
    (hhosts : List.Forall₂ (Hosts cs) gs ids) (hc : c ∈ cs) (hg : c.animator? = some g) :
    g ∈ gs ↔ c.id ∈ ids := by
  constructor
  · intro hin
    obtain ⟨id, hid, c', hc', rfl, hg'⟩ := exists_of_forall₂ hhosts hin
    rwa [← hl.eq_of_animator hc hc' hg hg']
  · intro hin
    obtain ⟨k, hk, c', hc', hid, hg'⟩ := exists_of_forall₂ hhosts.flip hin
    obtain ⟨-, -, -, -, -, -, distinct, -, -, -⟩ := hl.driven
    obtain rfl := List.inj_on_of_nodup_map distinct hc' hc hid
    rw [hg] at hg'
    cases hg'
    exact hk

theorem StandsAmid.length_carried {resolve : CharId → Option Resolved} {a : Arena}
    {gs : List Handle} {ids : List ObjectId} {c : Node} {seat : Seat}
    (hs : StandsAmid resolve a β τ e gs c seat)
    (hiff : ∀ g, c.animator? = some g → (g ∈ gs ↔ seat.id ∈ ids)) :
    c.carried.length = if seat.id ∈ ids then seat.weigh (Scene.below resolve e)
      else seat.older.weigh (Scene.below resolve e) := by
  have hlength : ∀ {σ s}, Stands (Under resolve a β σ e) c s →
      c.carried.length = s.weigh (Scene.below resolve e) := fun hs =>
    hs.length_carried fun _ _ _ _ => Under.length_carriedAll
  cases hg : c.animator? with
  | none =>
    have hstands := hs.2 fun g _ hg' => by
      rw [hg] at hg'
      cases hg'
    have hnone := (hstands.bare hg).1
    have hclip : seat.clip? = none := by simpa [Seat.older] using hnone
    rw [hlength hstands]
    simp [Seat.weigh, Seat.older, hclip]
  | some g =>
    by_cases hin : g ∈ gs
    · rw [if_pos ((hiff g hg).mp hin)]
      exact hlength (hs.1 g hin hg)
    · rw [if_neg fun hid => hin ((hiff g hg).mpr hid)]
      refine hlength (hs.2 fun k hk hg' => hin ?_)
      rw [hg] at hg'
      cases hg'
      exact hk

theorem StandsAmid.id_eq {resolve : CharId → Option Resolved} {a : Arena} {gs : List Handle}
    {c : Node} {seat : Seat} (hs : StandsAmid resolve a β τ e gs c seat) : c.id = seat.id := by
  by_cases hw : ∃ g ∈ gs, c.animator? = some g
  · obtain ⟨g, hg, hcg⟩ := hw
    exact (hs.1 g hg hcg).id_eq
  · exact (hs.2 fun g hg hcg => hw ⟨g, hg, hcg⟩).id_eq

theorem forall₂_split {α γ : Type} {P : α → γ → Prop} {pre post : List α} {x : α} {ys : List γ}
    (hp : List.Forall₂ P (pre ++ x :: post) ys) : ∃ yp y yq, ys = yp ++ y :: yq ∧
      List.Forall₂ P pre yp ∧ P x y ∧ List.Forall₂ P post yq := by
  induction pre generalizing ys with
  | nil =>
    obtain _ | ⟨hxy, hrest⟩ := hp
    exact ⟨[], _, _, rfl, .nil, hxy, hrest⟩
  | cons z pre ih =>
    obtain _ | ⟨hzy, hrest⟩ := hp
    obtain ⟨yp, y, yq, rfl, hpre, hxy, hpost⟩ := ih hrest
    exact ⟨_ :: yp, y, yq, rfl, .cons hzy hpre, hxy, hpost⟩

/-- While a nested animator plays, its siblings carry what they did before or do after their tick. -/
theorem nested_weight {g : Handle} {gs : List Handle} {ids : List ObjectId} {c : Node}
    {pre post : List Node} (hl : Linked s main r.arena parent d h n.children)
    (hcs : n.children = pre ++ c :: post) (hg : c.animator? = some g)
    (hhosts : List.Forall₂ (Hosts n.children) (g :: gs) (c.id :: ids))
    (hst : List.Forall₂ (StandsAmid s.resolve r.arena β τ e (g :: gs)) n.children ss) :
    ∃ t j e', e = e' + 1 ∧ Shows s.resolve r.arena β τ e' t j g c.children ∧
      (carriedAll (pre ++ post)).length + (Scene.peakBelow s.resolve e t j + 1) =
        Seat.total (Scene.nestedWeight (Scene.below s.resolve e) (Scene.peakBelow s.resolve e) c.id
          ids) ss := by
  have hsibling : ∀ b ∈ pre ++ post, ∀ s', StandsAmid s.resolve r.arena β τ e (g :: gs) b s' →
      b.carried.length = Scene.nestedWeight (Scene.below s.resolve e)
        (Scene.peakBelow s.resolve e) c.id ids s' := by
    intro b hb s' hs
    have hbin : b ∈ n.children := by
      rw [hcs]
      exact List.perm_middle.symm.subset (List.mem_cons_of_mem c hb)
    obtain ⟨-, -, -, -, -, -, distinct, -, -, -⟩ := hl.driven
    have hne : s'.id ≠ c.id := by
      rw [← hs.id_eq]
      rw [hcs, (List.perm_middle.map Node.id).nodup_iff, List.map_cons] at distinct
      exact fun he => (List.nodup_cons.mp distinct).1 (he ▸ List.mem_map_of_mem hb)
    have hlength := hs.length_carried fun k hk => hs.id_eq ▸ hl.mem_iff_of_hosts hhosts hbin hk
    rw [hlength, Scene.nestedWeight, if_neg hne]
    simp only [List.mem_cons, hne, false_or]
  rw [hcs] at hst
  obtain ⟨sp, seat, sq, rfl, hpre, hseat, hpost⟩ := forall₂_split hst
  have hwaits := hseat.1 g List.mem_cons_self hg
  obtain ⟨t, j, e', hclip, rfl, hshows⟩ := hwaits.shows hg
  refine ⟨t, j, e', rfl, hshows, ?_⟩
  have hpreSum := length_carriedAll_of_forall₂ hpre fun b hb =>
    hsibling b (List.mem_append_left _ hb)
  have hpostSum := length_carriedAll_of_forall₂ hpost fun b hb =>
    hsibling b (List.mem_append_right _ hb)
  have hself : Scene.nestedWeight (Scene.below s.resolve (e' + 1))
      (Scene.peakBelow s.resolve (e' + 1)) c.id ids seat =
      Scene.peakBelow s.resolve (e' + 1) t j + 1 := by
    rw [Scene.nestedWeight, if_pos hseat.id_eq.symm]
    simp only [Seat.weigh, hclip]
  rw [Node.carriedAll_append, List.length_append, hpreSum, hpostSum, Seat.total_append, Seat.total,
    hself]
  omega

theorem playChildren_fills (β : Handle → Nat) (τ out : Nat) (hp : p.Links s main)
    (hq : p.Performs s main m) (hf : p.Fills s main m) (gs : List Handle) (ids : List ObjectId)
    (hl : Linked s main r.arena parent d h n.children)
    (hhosts : List.Forall₂ (Hosts n.children) gs ids) (hnodup : gs.Nodup)
    (hde : d + e = s.options.maxNestingDepth) (hem : e ≤ m)
    (hst : List.Forall₂ (StandsAmid s.resolve r.arena (r.births β τ) τ e gs) n.children ss)
    (hsize : r.arena.size = out + 1 + (carriedAll n.children).length)
    (hroom : r.arena.Room (playChildren s p gs n r).2.arena (out + 1 +
      Scene.nestedPeak (Scene.below s.resolve e) (Scene.peakBelow s.resolve e) ss ids)) :
    (playChildren s p gs n r).2.arena.slots.size = max r.arena.slots.size (out + 1 +
      Scene.nestedPeak (Scene.below s.resolve e) (Scene.peakBelow s.resolve e) ss ids) := by
  induction gs generalizing n r ids with
  | nil =>
    cases hhosts
    have hslots := hl.size_le_slots (hroom.fits_start (Nat.le_refl _))
    show r.arena.slots.size = _
    rw [Scene.nestedPeak]
    omega
  | cons g gs ih =>
    obtain _ | ⟨hhost, hrest⟩ := hhosts
    rename_i id ids
    have hin : g ∈ hosted n.children := by
      obtain ⟨c, hc, -, hg⟩ := hhost
      exact Node.mem_hosted.mpr ⟨c, hc, hg⟩
    have hfit := hroom.fits_start (playChildren_grows hp.grows (g :: gs) n r)
    obtain ⟨pre, c, post, hcs, hg, heq⟩ := playChildren_cons s p gs hin r
    obtain rfl : c.id = id := by
      obtain ⟨c', hc', rfl, hg'⟩ := hhost
      rw [hl.eq_of_animator (hcs ▸ by simp) hc' hg hg']
    obtain ⟨t, j, e', rfl, hshows, hsum⟩ := nested_weight hl hcs hg (.cons hhost hrest) hst
    rw [heq] at hroom ⊢
    rw [Scene.nestedPeak] at hroom ⊢
    have hbefore : r.arena.size =
        out + 1 + (carriedAll (pre ++ post)).length + 1 + (carriedAll c.children).length := by
      have hperm : (pre ++ c :: post).Perm (c :: (pre ++ post)) := List.perm_middle
      have hlength := (Node.carriedAll_perm_of_core (hperm.map Node.core)).length_eq
      rw [hsize, hcs, hlength, Node.carriedAll_cons, Node.carried_eq, hg, Node.handles]
      simp only [List.length_append, Option.toList_some, List.length_singleton]
      omega
    have hfirstRoom := hroom.before (playChildren_grows hp.grows gs _ _)
      (i := out + 1 + (carriedAll (pre ++ post)).length + 1 +
        Scene.peakBelow s.resolve (e' + 1) t j) (by omega)
    have hfirstSize := hf _ (by omega) (by omega) (hl.clip_of_split hcs hg) hshows hbefore hfirstRoom
    have hfirstFits := hfirstRoom.fits hfirstSize
    obtain ⟨hfirst, hamid, -⟩ := nested_stands β τ hp hq hl hcs hg hnodup hde hem hfirstFits hst
    have hcount := hl.size_eq hfirst.linked hfirst.confined hfit hfirstFits
    have hhosts' : List.Forall₂ (Hosts (pre ++ (p g c r).1 :: post)) gs ids :=
      hrest.imp fun k id hk => by
        rw [hcs] at hk
        exact hk.exchange (hp.head g c r)
    rw [ih ids hfirst.linked hhosts' (List.nodup_cons.mp hnodup).2 hamid (by dsimp only; omega)
      (hroom.after hfirstFits (by omega)), hfirstSize]
    omega

theorem playFrame_fills (β : Handle → Nat) (τ out : Nat) (hp : p.Links s main)
    (hq : p.Performs s main m) (hf : p.Fills s main m) {sc : Scene}
    (hl : Linked s main r.arena parent d h n.children) (hx : r.arena.get? h = some x)
    (hcursor : x.cursor = sc.cursor) (hde : d + e = s.options.maxNestingDepth) (hem : e ≤ m)
    (hst : List.Forall₂ (Stands (Under s.resolve r.arena (r.births β τ) (τ + 1) e)) n.children
      (sc.seats.map Seat.older))
    (hsize : r.arena.size = out + 1 + (carriedAll n.children).length)
    (hroom : r.arena.Room (playFrame s p h x.timeline n r).2.arena (out + 1 +
      Command.peak s.resolve e (Scene.below s.resolve e) (Scene.peakBelow s.resolve e)
        (sc.commands x.timeline) (sc.seats.map Seat.older))) :
    (playFrame s p h x.timeline n r).2.arena.slots.size = max r.arena.slots.size (out + 1 +
      Command.peak s.resolve e (Scene.below s.resolve e) (Scene.peakBelow s.resolve e)
        (sc.commands x.timeline) (sc.seats.map Seat.older)) := by
  have hfit := hroom.fits_start (playFrame_grows hp.grows h x.timeline n r)
  have hslots := hl.size_le_slots hfit
  have hids : sc.seats.map Seat.id = n.childIds := by
    rw [Node.childIds, ← map_id_of_stands hst, List.map_map]
    rfl
  have hplay := playFrame_scene s p hx hcursor hids
  generalize sc.number x.timeline = number at hplay
  obtain ⟨-, hcommands, heq⟩ | ⟨-, hnew, hdecl, report, heq⟩ := hplay
  · rw [heq, hcommands, Run.size_seek]
    dsimp only [Command.peak]
    omega
  · rw [heq] at hroom ⊢
    dsimp only at hroom ⊢
    generalize sc.commands x.timeline = cmds at hnew hdecl hroom ⊢
    have hx' := Run.get?_seek hx number
    have hlinked := hl.seek number
    have hseek : List.Forall₂ (Stands (Under s.resolve (r.seek h number).arena
        ((r.seek h number).births β τ) (τ + 1) e)) n.children (sc.seats.map Seat.older) :=
      stands_modify hl hst _
    have hseekConf := (Confined.modify r.arena h fun x => { x with cursor := number }).append_right
      (carriedAll n.children)
    have hsame := Run.size_seek r h number
    have hcount := hl.size_eq hlinked hseekConf hfit (hsame.trans_le hfit)
    rw [← Run.births_emit (e := .frame report) (by simp) β τ] at hseek
    rw [← Run.arena_emit (r.seek h number) (.frame report)] at hx' hlinked hseek hsame hcount
    generalize (r.seek h number).emit (.frame report) = run
      at hroom hx' hlinked hseek hsame hcount ⊢
    have hroom' : run.arena.Room (Command.executeAll s p h cmds n run).2.arena (out + 1 +
        Command.peak s.resolve e (Scene.below s.resolve e) (Scene.peakBelow s.resolve e) cmds
          (sc.seats.map Seat.older)) := by
      unfold Arena.Room Arena.Fits at hroom ⊢
      rwa [Run.size_advance, ← hsame] at hroom
    rw [Run.size_advance, executeAll_fills β τ out hp hq hf x.timeline _ hlinked ⟨_, hx', rfl⟩ hnew
      hdecl hde hem hseek (by omega) hroom', hsame]

end Commands

theorem playStep_fills {s : Setting} {main : Timeline} {m : Nat} {p : Player}
    (hp : p.Links s main) (hq : p.Performs s main m) (hf : p.Fills s main m) :
    (playStep s p).Fills s main (m + 1) := by
  intro out β τ e t j parent d h n r hem hde hl hshows hsize hroom
  obtain ⟨⟨x, hx, rfl, hcursor, hhosts⟩, -, hst⟩ := shows_iff.mp hshows
  have hem : e ≤ m := Nat.le_of_lt_succ hem
  have hfit := hroom.fits_start (playStep_grows s p hp.grows h n r)
  have hslots := hl.size_le_slots hfit
  by_cases hcount : x.timeline.frameCount = 0
  · rw [playStep_of_empty s p hx hcount, Scene.peakBelow_of_empty hcount]
    show r.arena.slots.size = _
    omega
  · rw [playStep_eq s p hx hcount, Scene.peakBelow_of_frames hcount] at hroom ⊢
    dsimp only at hroom ⊢
    have hin : ∀ g ∈ x.children, g ∈ hosted n.children := fun g hg =>
      (hl.driven.perm_hosted hx).subset hg
    have hnodup := hl.wellFormed.forest.nodup hx
    have hamid := amid_of_stands hl hx hst
    have hnestedRoom := hroom.before (playFrame_grows hp.grows h x.timeline _ _)
      (i := out + 1 + Scene.nestedPeak (Scene.below s.resolve e) (Scene.peakBelow s.resolve e)
        (Scene.after s.resolve e x.timeline j).seats (Scene.after s.resolve e x.timeline j).order)
      (by omega)
    have hnestedSize := playChildren_fills β τ out hp hq hf x.children _ hl hhosts hnodup hde hem
      hamid hsize hnestedRoom
    have hnestedFits := hnestedRoom.fits hnestedSize
    obtain ⟨hchildren, howner, -⟩ := playChildren_settles hp x.children hl hin hnestedFits
    obtain ⟨hplayed, -⟩ :=
      playChildren_stands hp hq x.children hl hin hnodup hde hem hnestedFits hamid
    have hsize' := hl.size_eq hchildren.linked hchildren.confined hfit hnestedFits
    generalize playChildren s p x.children n r = played
      at hroom hchildren howner hplayed hsize' hnestedSize hnestedFits ⊢
    obtain ⟨n', r'⟩ := played
    dsimp only at *
    rw [playFrame_fills β τ out hp hq hf hchildren.linked (howner.trans hx) hcursor hde hem
      (stands_of_amid hplayed) (by omega) (hroom.after hnestedFits (by omega)), hnestedSize]
    omega

theorem playChain_fills (s : Setting) (main : Timeline) (m : Nat) :
    (playChain s idle m).Fills s main m := by
  induction m with
  | zero =>
    intro out β τ e t j parent d h n r hem
    exact absurd hem (Nat.not_lt_zero e)
  | succ m ih => exact playStep_fills (playChain_links s main m) (playChain_performs s main m) ih

end SceneReel
