import SceneReel.Proofs.Arena.Aside
import SceneReel.Proofs.Arena.Operations
import SceneReel.Proofs.Display.Rearranged
import SceneReel.Proofs.Playback.Doubling
import SceneReel.Proofs.Playback.Foreseen
import SceneReel.Proofs.Playback.Guarded

/-!
What a command leaves alone. Among the children it changes the ones that it names, or adds one; in the
arena it ends what the removed children host, with all below, and enters what it starts on the list of
its owner. Nothing else changes, though a clip that starts plays its first frame at once.
-/
namespace SceneReel

open Node (hosted)

namespace Command

/-- The first child with an id stands between others. -/
structure Finds (object : ObjectId) (cs pre : List Node) (n : Node) (post : List Node) : Prop where
  split : cs = pre ++ n :: post
  id : n.id = object
  first : ∀ b ∈ pre, b.id ≠ object

/-- How a command may change a list of children. -/
def Alters : Command → List Node → List Node → Prop
  | .place _ object _ _, cs, cs' =>
    ∃ pre new post, new.id = object ∧ cs = pre ++ post ∧ cs' = pre ++ new :: post
  | .move object m, cs, cs' =>
    (∃ pre n post, Finds object cs pre n post ∧
      cs' = pre ++ { n with transform := m.decompose } :: post) ∨
    object ∉ cs.map Node.id ∧ cs' = cs
  | .remove object, cs, cs' => cs' = cs.filter (·.id ≠ object)
  | .reorder object _, cs, cs' =>
    (∃ pre n post pre' post', Finds object cs pre n post ∧ pre ++ post = pre' ++ post' ∧
      cs' = pre' ++ n :: post') ∨
    object ∉ cs.map Node.id ∧ cs' = cs
  | .setVisible object visible, cs, cs' =>
    cs' = cs.map fun n => if n.id = object then { n with visible } else n

section Children

variable {object : ObjectId} {cs : List Node}

theorem exists_finds (h : object ∈ cs.map Node.id) : ∃ pre n post, Finds object cs pre n post := by
  obtain ⟨pre, n, post, hfirst⟩ := Siblings.exists_first h
  exact ⟨pre, n, post, hfirst.split, hfirst.key_eq, hfirst.others⟩

theorem exists_insertBefore (n : Node) (before : Option ObjectId) (cs : List Node) :
    ∃ pre post, cs = pre ++ post ∧ Siblings.insertBefore Node.id n before cs = pre ++ n :: post := by
  cases before with
  | none => exact ⟨cs, [], (List.append_nil cs).symm, rfl⟩
  | some k => exact ⟨_, _, (List.takeWhile_append_dropWhile).symm, rfl⟩

variable {new : CharId → ObjectId → Geometry.Matrix → Node}

theorem alters_move (object : ObjectId) (m : Geometry.Matrix) (cs : List Node) :
    (Command.move object m).Alters cs ((Command.move object m).arrange nodes new cs) := by
  rw [arrange]
  cases hu : updateFirst? (nodes.id · = object) (fun n => (nodes.move m n, ())) cs with
  | none =>
    refine .inr ⟨fun hin => ?_, rfl⟩
    obtain ⟨b, hb, hid⟩ := List.mem_map.mp hin
    exact of_decide_eq_false (updateFirst?_eq_none_iff.mp hu b hb) hid
  | some out =>
    obtain ⟨pre, n, post, hcs, hn, hpre, hout, -⟩ := updateFirst?_eq_some (c := out.2) hu
    have hfinds : Finds object cs pre n post :=
      ⟨hcs, of_decide_eq_true hn, fun b hb => of_decide_eq_false (hpre b hb)⟩
    exact .inl ⟨pre, n, post, hfinds, hout⟩

theorem alters_reorder (object : ObjectId) (before : Option ObjectId) (cs : List Node) :
    (Command.reorder object before).Alters cs ((Command.reorder object before).arrange nodes new cs) := by
  by_cases hin : object ∈ cs.map Node.id
  · obtain ⟨pre, n, post, hfinds⟩ := exists_finds hin
    have hstay : ∃ pre n post pre' post', Finds object cs pre n post ∧
        pre ++ post = pre' ++ post' ∧ cs = pre' ++ n :: post' :=
      ⟨pre, n, post, pre, post, hfinds, rfl, hfinds.split⟩
    cases before with
    | none => exact .inl hstay
    | some before =>
      show (Alters (.reorder object (some before)) cs
        ((Siblings.moveBefore? Node.id object before cs).getD cs))
      unfold Siblings.moveBefore?
      split
      · exact .inl hstay
      · split
        · obtain ⟨pre', post', hrest, hout⟩ := exists_insertBefore n (some before) (pre ++ post)
          refine .inl ⟨pre, n, post, pre', post', hfinds, hrest, ?_⟩
          rw [hfinds.split, Siblings.takeFirst?_append hfinds.id hfinds.first]
          exact hout
        · exact .inl hstay
  · refine .inr ⟨hin, ?_⟩
    cases before with
    | none => rfl
    | some before =>
      have hnot : Siblings.contains Node.id object cs = false :=
        Bool.eq_false_iff.mpr (mt Siblings.contains_iff_mem_map.mp hin)
      show (Siblings.moveBefore? Node.id object before cs).getD cs = cs
      rw [Siblings.moveBefore?_of_not_contains hnot]
      rfl

theorem alters_arrange {c : Command} (hnew : ∀ char object m, (new char object m).id = object)
    (cs : List Node) : c.Alters cs (c.arrange nodes new cs) := by
  cases c with
  | place char object before m =>
    obtain ⟨pre, post, hcs, hout⟩ := exists_insertBefore (new char object m) before cs
    exact ⟨pre, _, post, hnew char object m, hcs, hout⟩
  | move object m => exact alters_move object m cs
  | remove object => exact rfl
  | reorder object before => exact alters_reorder object before cs
  | setVisible object visible => exact rfl

/-- Children that are left keep id, kind and all below them; only a placement adds a child. -/
theorem Alters.cores {c : Command} {cs' : List Node} (h : c.Alters cs cs') :
    ∃ placed : List Node, placed.length = (if c.placed? = none then 0 else 1) ∧
      (cs'.map Node.core).Perm
        ((placed ++ cs.filter fun n => c.removed? ≠ some n.id).map Node.core) := by
  have hall : c.removed? = none → cs.filter (fun n => c.removed? ≠ some n.id) = cs :=
    fun hnone => List.filter_eq_self.mpr fun n _ => by rw [hnone]; rfl
  cases c with
  | place char object before m =>
    obtain ⟨pre, new, post, -, rfl, rfl⟩ := h
    refine ⟨[new], rfl, ?_⟩
    rw [hall rfl]
    exact List.perm_middle.map Node.core
  | move object m =>
    refine ⟨[], rfl, ?_⟩
    rw [hall rfl]
    rcases h with ⟨pre, n, post, hfinds, rfl⟩ | ⟨-, rfl⟩
    · rw [hfinds.split, List.nil_append, List.map_append, List.map_append]
      exact .refl _
    · exact .refl _
  | remove object =>
    refine ⟨[], rfl, ?_⟩
    have hkept : cs' = cs.filter fun n => (Command.remove object).removed? ≠ some n.id := by
      rw [show cs' = cs.filter (·.id ≠ object) from h]
      refine List.filter_congr fun n _ => ?_
      simp [removed?, eq_comm]
    rw [← hkept]
    exact .refl _
  | reorder object before =>
    refine ⟨[], rfl, ?_⟩
    rw [hall rfl]
    rcases h with ⟨pre, n, post, pre', post', hfinds, hrest, rfl⟩ | ⟨-, rfl⟩
    · rw [hfinds.split]
      refine List.Perm.map Node.core ?_
      have hmiddle : (pre' ++ n :: post').Perm (n :: (pre' ++ post')) := List.perm_middle
      rw [← hrest] at hmiddle
      exact hmiddle.trans List.perm_middle.symm
    · exact .refl _
  | setVisible object visible =>
    refine ⟨[], rfl, ?_⟩
    rw [hall rfl, show cs' = cs.map _ from h, List.map_map]
    refine List.Perm.of_eq (List.map_congr_left fun n _ => ?_)
    dsimp only [Function.comp_apply]
    split <;> rfl

end Children

/-- The animators that a command ends, each with all below it: those that the removed children host. -/
def ended (c : Command) (cs : List Node) : List Handle :=
  match c with
  | .remove object => hosted (cs.filter (·.id = object))
  | _ => []

/-- The animator that a command starts, if it places a clip that is not nested too deep. -/
def begun (s : Setting) (owner : Handle) (run : Run) : Command → List Handle
  | .place char _ _ _ =>
    match s.resolve char with
    | some (.timeline t) =>
      if s.options.maxNestingDepth < run.spawnDepth owner then []
      else [(run.arena.spawn t owner (run.spawnDepth owner)).1]
    | _ => []
  | _ => []

end Command

section Frame

variable {s : Setting} {p : Player} {owner k : Handle} {x : Animation} {r : Run}

theorem get?_retireAll_of_dead (gs : List Handle) (reason : RetireReason)
    (hk : r.arena.get? k = none) : (gs.foldl (Run.retire · reason) r).arena.get? k = none := by
  induction gs generalizing r with
  | nil => exact hk
  | cons g gs ih =>
    refine ih ?_
    rw [Run.arena_retire]
    exact Arena.get?_retire_of_dead hk g

/-- To retire some ends who is below them, and takes them off the lists of the others. -/
theorem get?_retireAll (gs : List Handle) (reason : RetireReason) (hw : r.arena.WellFormed)
    (hx : r.arena.get? k = some x) :
    ((∃ g ∈ gs, Arena.Descends r.arena.slots g k) →
      (gs.foldl (Run.retire · reason) r).arena.get? k = none) ∧
    ((¬ ∃ g ∈ gs, Arena.Descends r.arena.slots g k) →
      (gs.foldl (Run.retire · reason) r).arena.get? k =
        some { x with children := x.children.filter (· ∉ gs) }) := by
  induction gs generalizing r x with
  | nil => simp [hx]
  | cons g gs ih =>
    obtain ⟨hdead, hleft⟩ := hw.forest.kinship.get?_retire_of_live hx g
    rw [List.foldl_cons]
    by_cases hd : Arena.Descends r.arena.slots g k
    · refine ⟨fun _ => get?_retireAll_of_dead gs reason ?_,
        fun hno => absurd ⟨g, List.mem_cons_self, hd⟩ hno⟩
      rw [Run.arena_retire]
      exact hdead hd
    · -- a live animator that is not below the first one keeps all that is above it
      have hbelow : (∃ h ∈ gs, Arena.Descends (r.retire reason g).arena.slots h k) ↔
          ∃ h ∈ g :: gs, Arena.Descends r.arena.slots h k := by
        rw [Run.arena_retire, List.exists_mem_cons_iff, or_iff_right hd]
        refine exists_congr fun h => and_congr_right fun _ => ?_
        exact ⟨Arena.descends_of_retire, hw.forest.kinship.descends_retire hd⟩
      have hw' : (r.retire reason g).arena.WellFormed := by
        rw [Run.arena_retire]
        exact hw.retire g
      obtain ⟨hthen, helse⟩ := ih hw' (by rw [Run.arena_retire]; exact hleft hd)
      rw [hbelow] at hthen helse
      refine ⟨hthen, fun hno => ?_⟩
      rw [helse hno, List.filter_filter]
      simp only [List.mem_cons, not_or, Bool.decide_and, Bool.and_comm]

/-- Animators set aside are kept by whatever others play. -/
def Guard.aside (s : Setting) (kept held : Set Handle) (a : Arena) : Guard s where
  barred := held
  may _ := {h | h ∉ kept}
  holds r := Arena.SetsAside kept held a r.arena
  room r := r.arena.Fits
  room_earlier hlater hfit := hfit.mono hlater.slots
  may_later _ := subset_rfl
  emit hr _ := hr
  retire hr _ reason h hh _ := by
    rw [Run.arena_retire]
    exact hr.retire hh
  start hr howner _ object hfit := by
    obtain ⟨hspawn, hnew⟩ := hr.spawn howner hfit
    exact ⟨hspawn, hnew, fun hin => hnew (hr.subset hin)⟩
  modify hr _ hh f hf := by
    refine hr.modify hh fun x c hc => .inl ?_
    obtain ⟨cursor, he⟩ := hf x
    rwa [he] at hc
  listed hr _ hh hx g hg := by
    have hout := hr.apart _ _ hx hh g hg
    exact ⟨fun _ hin => hout (hr.subset hin), fun _ => hout⟩

theorem get?_enter (hp : ∀ G : Guard s, p.Heeds G) (hw : r.arena.WellFormed) (char : CharId)
    (object : ObjectId) (before : Option ObjectId) (m : Geometry.Matrix)
    (hfit : (Command.place char object before m).begun s owner r ≠ [] →
      (Command.enter s p owner char object m r).2.arena.Fits)
    (hx : r.arena.get? k = some x) :
    (Command.enter s p owner char object m r).2.arena.get? k = some { x with
      children := x.children ++
        if k = owner then (Command.place char object before m).begun s owner r else [] } := by
  by_cases hchar : ∃ t, s.resolve char = some (.timeline t)
  · obtain ⟨t, hchar⟩ := hchar
    rw [enter_of_timeline hchar] at hfit ⊢
    simp only [Command.begun, hchar] at hfit ⊢
    by_cases hd : s.options.maxNestingDepth < r.spawnDepth owner
    · rw [spawn_of_lt hd, if_pos hd, ite_self, List.append_nil]
      exact hx
    · rw [if_neg hd] at hfit ⊢
      replace hfit := hfit (List.cons_ne_nil _ _)
      rw [spawn_of_le (Nat.le_of_not_lt hd)] at hfit ⊢
      have hlater := (hp (Guard.aside s ∅ ∅ r.arena)).obeys.later
      have hroom := Arena.Fits.mono hfit (hlater _ _ _).slots
      -- all that were live are set aside while the new clip plays its first frame
      obtain ⟨hchild, held, haside⟩ := hw.setsAside_spawn hroom
      obtain ⟨hplayed, -⟩ := (hp (Guard.aside s _ held _)).plays
        (r := r.start t owner (r.spawnDepth owner) object char) hchild
        (fun g hg => (List.not_mem_nil hg).elim) haside hfit
      rw [hplayed.same k ⟨x, hx⟩]
      exact (hw.stored.get?_spawn_of_live hroom hx).2
  · have hstill : ∀ t, s.resolve char ≠ some (.timeline t) := fun t ht => hchar ⟨t, ht⟩
    have hnone : (Command.place char object before m).begun s owner r = [] := by
      simp only [Command.begun]
    rw [(enter_of_still hstill object m).1, hnone, ite_self, List.append_nil]
    exact hx

theorem get?_settle (hp : ∀ G : Guard s, p.Heeds G) (hw : r.arena.WellFormed) (c : Command)
    (n : Node) (hfit : c.begun s owner r ≠ [] → (c.settle s p owner n r).arena.Fits)
    (hx : r.arena.get? k = some x) :
    ((∃ g ∈ c.ended n.children, Arena.Descends r.arena.slots g k) →
      (c.settle s p owner n r).arena.get? k = none) ∧
    ((¬ ∃ g ∈ c.ended n.children, Arena.Descends r.arena.slots g k) →
      (c.settle s p owner n r).arena.get? k = some { x with
        children := x.children.filter (· ∉ c.ended n.children) ++
          if k = owner then c.begun s owner r else [] }) := by
  have hall : x.children.filter (· ∉ ([] : List Handle)) = x.children := by simp
  have hquiet : r.arena.get? k = some { x with children := x.children.filter (· ∉ ([] : List Handle)) ++
      if k = owner then [] else [] } := by
    rw [ite_self, List.append_nil, hall]
    exact hx
  cases c with
  | place char object before m =>
    refine ⟨fun ⟨g, hg, _⟩ => (List.not_mem_nil hg).elim, fun _ => ?_⟩
    have henter := get?_enter hp hw char object before m hfit hx
    rw [← hall] at henter
    exact henter
  | remove object =>
    obtain ⟨hdead, hleft⟩ := get?_retireAll (hosted (n.children.filter (·.id = object))) .removed hw hx
    refine ⟨hdead, fun hno => (hleft hno).trans ?_⟩
    rw [show (Command.remove object).begun s owner r = [] from rfl, ite_self, List.append_nil]
    rfl
  | _ => exact ⟨fun ⟨g, hg, _⟩ => (List.not_mem_nil hg).elim, fun _ => hquiet⟩

end Frame

/-- A command touches only what it names, among the children and in the arena. -/
theorem execute_touches_named (s : Setting) (m : Nat) (owner : Handle) (c : Command) (target : Node)
    (run : Run) (hw : run.arena.WellFormed)
    (hfit : c.begun s owner run ≠ [] →
      (c.execute s (playChain s idle m) owner target run).2.2.arena.Fits) :
    let after := (c.execute s (playChain s idle m) owner target run).2
    (∃ cs, after.1 = { target with children := cs } ∧ c.Alters target.children cs ∧
      ∃ placed : List Node, placed.length = (if c.placed? = none then 0 else 1) ∧
        (cs.map Node.core).Perm
          ((placed ++ target.children.filter fun n => c.removed? ≠ some n.id).map Node.core)) ∧
    ∀ k x, run.arena.get? k = some x →
      ((∃ g ∈ c.ended target.children, Arena.Descends run.arena.slots g k) →
        after.2.arena.get? k = none) ∧
      ((¬ ∃ g ∈ c.ended target.children, Arena.Descends run.arena.slots g k) →
        after.2.arena.get? k = some { x with
          children := x.children.filter (· ∉ c.ended target.children) ++
            if k = owner then c.begun s owner run else [] }) := by
  intro after
  have hafter : after = _ := Command.execute_eq s (playChain s idle m) owner target run c
  rw [Command.execute_eq] at hfit
  rw [hafter]
  have hid : ∀ char object mat,
      (Command.enter s (playChain s idle m) owner char object mat run).1.id = object :=
    fun char object mat => (enter_shown (Plan.playChain_keepsHead s m) owner char object mat run).1
  have halters := Command.alters_arrange (c := c) hid target.children
  refine ⟨⟨_, rfl, halters, halters.cores⟩, fun k x hx => ?_⟩
  exact get?_settle (fun G => playChain_heeds G m) hw c target hfit hx

/-- A clip is placed before two shapes that have its id already; its animator is listed behind the one
there. -/
theorem place_among_twins_touches_named :
    let s : Setting := ⟨fun _ => some (.timeline ⟨[⟨[.known (.place ⟨2⟩ ⟨7⟩ none .identity)]⟩]⟩), {}⟩
    let run : Run := ⟨((Arena.alloc {} {} none 0).2.spawn {} ⟨0, 0⟩ 1).2, #[]⟩
    let twin : Node := { id := ⟨5⟩, kind := .shape ⟨3⟩ }
    let target : Node := { Node.container ⟨0⟩ with children := [twin, twin] }
    let c : Command := .place ⟨1⟩ ⟨5⟩ (some ⟨5⟩) .identity
    run.arena.WellFormed ∧ c.begun s ⟨0, 0⟩ run = [⟨2, 0⟩] ∧
    ∃ after, (c.execute s (playChain s idle 2) ⟨0, 0⟩ target run).2 = after ∧ after.2.arena.Fits ∧
      after.1.childIds = [⟨5⟩, ⟨5⟩, ⟨5⟩] ∧ c.Alters target.children after.1.children ∧
      (after.2.arena.get? ⟨0, 0⟩).map Animation.children = some [⟨1, 0⟩, ⟨2, 0⟩] := by
  intro s run twin target c
  have hroot : (Arena.alloc {} {} none 0).2.WellFormed := Arena.WellFormed.empty.alloc (by cbv)
  have hw : ((Arena.alloc {} {} none 0).2.spawn {} ⟨0, 0⟩ 1).2.WellFormed :=
    hroot.spawn (x := { timeline := {} }) rfl (by cbv)
  have hbegun : c.begun s ⟨0, 0⟩ run = [⟨2, 0⟩] := by decide +kernel
  have hfit : (c.execute s (playChain s idle 2) ⟨0, 0⟩ target run).2.2.arena.Fits := by
    decide +kernel
  have hids : (c.execute s (playChain s idle 2) ⟨0, 0⟩ target run).2.1.childIds = [⟨5⟩, ⟨5⟩, ⟨5⟩] := by
    decide +kernel
  have hx : run.arena.get? ⟨0, 0⟩ = some { timeline := {}, children := [⟨1, 0⟩] } := by cbv
  have htouches := execute_touches_named s 2 ⟨0, 0⟩ c target run hw fun _ => hfit
  dsimp only at htouches
  generalize (c.execute s (playChain s idle 2) ⟨0, 0⟩ target run).2 = after at hfit hids htouches ⊢
  obtain ⟨⟨cs, hcs, halters, -⟩, hlive⟩ := htouches
  have hnone : ¬ ∃ g ∈ c.ended target.children, Arena.Descends run.arena.slots g ⟨0, 0⟩ := by
    rintro ⟨g, hg, -⟩
    exact List.not_mem_nil hg
  refine ⟨hw, hbegun, after, rfl, hfit, hids, ?_, ?_⟩
  · rw [hcs]
    exact halters
  · rw [(hlive ⟨0, 0⟩ _ hx).2 hnone, hbegun]
    rfl

/-- Once the slots have run out, a placement moves the cursor of an animator that it does not name. -/
theorem place_in_full_arena :
    let s : Setting := ⟨fun _ => some (.timeline doubling), { retireDetached := false }⟩
    let placing (object : ObjectId) : Command := .place ⟨1⟩ object none .identity
    let a := Animator.start ⟨[⟨[.known (placing ⟨1⟩)]⟩, ⟨[.known (placing ⟨2⟩)]⟩]⟩
      { retireDetached := false }
    ∃ run, (play s a.root (.container ⟨0⟩) { arena := a.arena }).2 = run ∧ run.arena.WellFormed ∧
    ∃ k x y, k ≠ a.root ∧ run.arena.get? k = some x ∧
      ((placing ⟨2⟩).execute s (playChain s idle 32) a.root (.container ⟨0⟩) run).2.2.arena.get? k =
        some y ∧ x.cursor ≠ y.cursor := by
  intro s placing a
  obtain ⟨n, r, hfull, hplay⟩ := play_fills (s := s) rfl rfl
    ⟨[⟨[.known (placing ⟨1⟩)]⟩, ⟨[.known (placing ⟨2⟩)]⟩]⟩ [] rfl { retireDetached := false } ⟨0⟩
  have hexhausted : Exhausted s.options.maxNestingDepth a.root (r.advance ⟨0, 0⟩).arena :=
    hfull.exhausted.modify fun _ => rfl
  obtain ⟨x, y, hx, hy, hcursor⟩ :=
    execute_full (s := s) rfl hexhausted 31 ⟨2⟩ .identity (.container ⟨0⟩)
  refine ⟨r.advance ⟨0, 0⟩, congrArg Prod.snd hplay, ?_, _, x, y, hexhausted.last_ne, hx, hy, hcursor⟩
  exact hfull.wellFormed.modify _ fun _ => ⟨rfl, rfl, rfl⟩

end SceneReel
