import SceneReel.Proofs.Playback.Lineage

/-!
What follows a frame in the trace of a play: the commands of its plan, each reported after what it has led
to, and no other command of the same animator. A clip that starts reports all of its first tick in between.
-/
namespace SceneReel

open Run (Later keeps_later keeps_traced)

variable {s : Setting} {before cast : List (Handle × Timeline)} {root h k : Handle}
  {past : List Event} {task : Task} {c : Command} {cs : List Command} {n n' : Node} {r r' z : Run}
  {tr tr' post : List Report} {e : FrameEvent} {f : Frame}

section Reports

def Event.commandOf? (h : Handle) : Event → Option (CommandKind × ObjectId × Outcome)
  | .command k kind object outcome => if k = h then some (kind, object, outcome) else none
  | _ => none

def commandsOf (h : Handle) (tr : List Report) : List (CommandKind × ObjectId × Outcome) :=
  tr.filterMap (·.event.commandOf? h)

theorem commandsOf_append (h : Handle) (tr tr' : List Report) :
    commandsOf h (tr ++ tr') = commandsOf h tr ++ commandsOf h tr' :=
  List.filterMap_append

theorem commandsOf_command (h : Handle) (kind : CommandKind) (object : ObjectId) (outcome : Outcome)
    (n : Node) (tr : List Report) : commandsOf h (⟨.command h kind object outcome, n⟩ :: tr) =
      (kind, object, outcome) :: commandsOf h tr := by
  simp [commandsOf, Event.commandOf?]

theorem commandsOf_of_silent (hs : Silent h (tr.map Report.event)) : commandsOf h tr = [] := by
  refine List.filterMap_eq_nil_iff.mpr fun b hb => ?_
  cases he : b.event with
  | command k kind object outcome =>
    refine if_neg fun hk => hs kind object outcome ?_
    rw [← hk, ← he]
    exact List.mem_map_of_mem hb
  | _ => rfl

theorem silent_of_isAside {es : List Event} (hes : ∀ e ∈ es, e.isAside = true) (h : Handle)
    (n : Node) : Silent h ((es.map fun e => Report.mk e n).map Report.event) := by
  intro kind id outcome hin
  obtain ⟨b, hb, he⟩ := List.mem_map.mp hin
  have haside := isAside_of_mem_map hes hb
  rw [he] at haside
  cases haside

end Reports

section Batch

/-- What a command leads to before it is reported: animators retire, or its clip is too deep, or plays
its first tick. -/
inductive Between (s : Setting) (h : Handle) (n : Node) : Command → List Report → Prop
  | asides {c : Command} {es : List Event} (hc : c.Asides s h n es) :
      Between s h n c (es.map (⟨·, n⟩))
  | clip {char : CharId} {object : ObjectId} {before : Option ObjectId} {m : Geometry.Matrix}
      {t : Timeline} {child : Handle} {clip : Node} {r r₁ : Run} {tr : List Report}
      (hchar : s.resolve char = some (.timeline t))
      (hd : r.spawnDepth h ≤ s.options.maxNestingDepth)
      (hchild : child = (r.arena.spawn t h (r.spawnDepth h)).1)
      (inner : Unfolds s (.animator child)
        { id := object, kind := .clip char (some child), transform := m.decompose }
        (r.start t h (r.spawnDepth h) object char) tr clip r₁)
      (apart : Silent h (tr.map Report.event)) :
      Between s h n (.place char object before m) (⟨.spawn h child object char, n⟩ :: tr)

/-- A batch of commands as it is reported, from a node that they change one after the other. -/
inductive Bracketed (s : Setting) (h : Handle) : Node → List Command → List Report → Prop
  | nil {n : Node} : Bracketed s h n [] []
  | cons {n n₁ : Node} {c : Command} {cs : List Command} {outcome : Outcome}
      {between tr : List Report} (leading : Between s h n c between) (rest : Bracketed s h n₁ cs tr) :
      Bracketed s h n (c :: cs) (between ++ ⟨.command h c.kind c.object outcome, n₁⟩ :: tr)

theorem Between.commandsOf_eq_nil (hb : Between s h n c tr) : commandsOf h tr = [] := by
  cases hb with
  | asides hc => exact commandsOf_of_silent (silent_of_isAside hc.isAside h n)
  | clip hchar hd hchild inner apart => exact commandsOf_of_silent (apart.cons nofun)

/-- In a batch the animator reports its commands and no others. -/
theorem Bracketed.commandsOf (hb : Bracketed s h n cs tr) :
    (commandsOf h tr).map (fun c => (c.1, c.2.1)) = cs.map fun c => (c.kind, c.object) := by
  induction hb with
  | nil => rfl
  | cons leading _ ih =>
    rw [commandsOf_append, leading.commandsOf_eq_nil, commandsOf_command, List.nil_append,
      List.map_cons, List.map_cons, ih]

theorem Unfolds.bracketed (hz : z.Sparing s before) (hl : Lineage root (z.history past))
    (hp : Unfolds s (.commands h cs) n r tr n' r') (hr : r.Traced s before root past)
    (hend : Later r' z) : Bracketed s h n cs tr := by
  induction cs generalizing n r tr with
  | nil =>
    cases hp
    exact .nil
  | cons c cs ih =>
    cases hp with
    | plain hstill exec events rest =>
      obtain ⟨-, hr'⟩ := amid_plain hr exec c.kind c.object
      exact .cons (.asides (hstill.asides exec events)) (ih rest hr')
    | @clip _ child char object pos m t _ _ _ clip _ r₁ _ tr tr' hchar hd hchild inner rest =>
      obtain ⟨hr', hr₁, hmid, -, -⟩ := amid_clip hr hchar inner rest hend
      have hbegets := (r.begets_start past t h (r.spawnDepth h) object char).mono
        ((inner.later.trans hmid).history past)
      rw [← hchild] at hbegets
      have hapart := inner.silent hz hr' hmid (hl.not_below hbegets)
      exact .cons (c := .place char object pos m) (.clip hchar hd hchild inner hapart) (ih rest hr₁)

theorem Command.execute_remove {id : ObjectId} {outcome : Outcome} (hid : id ∈ n.childIds)
    (hexec : (Command.remove id).execute s idle h n r = (outcome, n', r')) :
    outcome = .applied ∧ n'.childIds = n.childIds.filter (· ≠ id) := by
  constructor
  · rw [← outcome_remove s idle h r hid, hexec]
  · rw [(Command.execute_inj hexec).1]
    exact childIds_arrange (fun _ _ _ => rfl) h (.remove id) n r

/-- Removals of what is there take effect one by one. -/
theorem Unfolds.removes {ids : List ObjectId} (hnodup : ids.Nodup) (hids : ids ⊆ n.childIds)
    (hp : Unfolds s (.commands h (ids.map .remove ++ cs)) n r tr n' r') :
    ∃ rest, commandsOf h tr = ids.map (fun id => (.remove, id, .applied)) ++ rest := by
  induction ids generalizing n r tr with
  | nil => exact ⟨commandsOf h tr, rfl⟩
  | cons id ids ih =>
    obtain ⟨hid, hnodup⟩ := List.nodup_cons.mp hnodup
    cases hp with
    | @plain _ _ _ _ n₁ _ _ _ _ es outcome tr hstill exec events rest =>
      obtain ⟨rfl, hchildren⟩ := Command.execute_remove (hids List.mem_cons_self) exec
      have hids' : ids ⊆ n₁.childIds := fun x hx => by
        rw [hchildren, List.mem_filter]
        refine ⟨hids (List.mem_cons_of_mem id hx), decide_eq_true fun hxid => hid ?_⟩
        rwa [← hxid]
      obtain ⟨more, hmore⟩ := ih hnodup hids' rest
      refine ⟨more, ?_⟩
      have haside := (hstill.asides exec events).isAside
      rw [commandsOf_append, commandsOf_of_silent (silent_of_isAside haside h n), List.nil_append]
      exact (commandsOf_command h .remove id .applied n₁ tr).trans (congrArg _ hmore)

end Batch

section Frames

/-- What follows a frame of an animator on a node: the commands of its plan, and no others of that
animator. -/
structure Answered (s : Setting) (e : FrameEvent) (n : Node) (f : Frame) (post : List Report) :
    Prop where
  reported : e = (Plan.ofFrame n.childIds f e.looped).report e.animator e.frame e.looped
  supported : e.commands = e.pruned + f.known.length + Plan.turned n.childIds f e.looped
  count : (commandsOf e.animator post).length = e.commands
  commands : (commandsOf e.animator post).map (fun c => (c.1, c.2.1)) =
    (Plan.ofFrame n.childIds f e.looped).commands.map fun c => (c.kind, c.object)
  pruned : ∀ c ∈ (commandsOf e.animator post).take e.pruned,
    ∃ object, c = (.remove, object, .applied)
  bracketed : ∃ batch rest, post = batch ++ rest ∧ Silent e.animator (rest.map Report.event) ∧
    Bracketed s e.animator n (Plan.ofFrame n.childIds f e.looped).commands batch

theorem Answered.append (ha : Answered s e n f post) {more : List Report}
    (hs : Silent e.animator (more.map Report.event)) : Answered s e n f (post ++ more) := by
  have hsame : commandsOf e.animator (post ++ more) = commandsOf e.animator post := by
    rw [commandsOf_append, commandsOf_of_silent hs, List.append_nil]
  obtain ⟨batch, rest, rfl, hsilent, hbatch⟩ := ha.bracketed
  refine ⟨ha.reported, ha.supported, ?_, ?_, ?_, batch, rest ++ more, List.append_assoc .., ?_, hbatch⟩
  · rw [hsame]
    exact ha.count
  · rw [hsame]
    exact ha.commands
  · rw [hsame]
    exact ha.pruned
  · rw [List.map_append]
    exact hsilent.append hs

theorem Unfolds.answered (hz : z.Sparing s before) (hl : Lineage root (z.history past))
    (f : Frame) (number : Nat) (looped : Bool)
    (hp : Unfolds s (.commands h (Plan.ofFrame n.childIds f looped).commands) n r tr n' r')
    (hr : r.Traced s before root past) (hend : Later r' z) :
    Answered s ((Plan.ofFrame n.childIds f looped).report h number looped) n f tr := by
  have hbatch := hp.bracketed hz hl hr hend
  have hcommands := hbatch.commandsOf
  refine ⟨rfl, Plan.length_ofFrame n.childIds f looped, ?_, hcommands, ?_, tr, [],
    (List.append_nil tr).symm, .nil h, hbatch⟩
  · have hlength := congrArg List.length hcommands
    rwa [List.length_map, List.length_map] at hlength
  · obtain ⟨removed, rest, hnodup, hsub, hplan, hpruned⟩ := Plan.exists_removals n.childIds f looped
    rw [hplan] at hp
    obtain ⟨more, hmore⟩ := hp.removes hnodup hsub
    intro c hc
    change c ∈ (commandsOf h tr).take (Plan.ofFrame n.childIds f looped).pruned at hc
    have hlength : (removed.map fun id => (CommandKind.remove, id, Outcome.applied)).length =
        removed.length := List.length_map _
    rw [hpruned, hmore, ← hlength, List.take_left] at hc
    obtain ⟨id, -, rfl⟩ := List.mem_map.mp hc
    exact ⟨id, rfl⟩

/-- Each frame in a trace is of a timeline that its animator started with, and is answered by what
follows. -/
def Framed (s : Setting) (cast : List (Handle × Timeline)) (tr : List Report) : Prop :=
  ∀ pre e n post, tr = pre ++ ⟨.frame e, n⟩ :: post →
    ∃ t f, (e.animator, t) ∈ cast ∧ t.frames[e.frame]? = some f ∧ Answered s e n f post

namespace Framed

theorem of_forall (hs : ∀ b ∈ tr, ∀ e, b.event ≠ .frame e) : Framed s cast tr := by
  rintro pre e n post rfl
  exact absurd rfl (hs ⟨.frame e, n⟩ (List.mem_append_right _ List.mem_cons_self) e)

theorem append (ht : Framed s cast tr) (ht' : Framed s cast tr')
    (hs : ∀ e n, ⟨.frame e, n⟩ ∈ tr → Silent e.animator (tr'.map Report.event)) :
    Framed s cast (tr ++ tr') := by
  intro pre e n post he
  rcases List.append_eq_append_iff.mp he with ⟨mid, rfl, hrest⟩ | ⟨mid, rfl, hrest⟩
  · exact ht' mid e n post hrest
  rcases List.cons_eq_append_iff.mp hrest with ⟨rfl, hrest⟩ | ⟨mid, rfl, rfl⟩
  · exact ht' [] e n post hrest.symm
  · obtain ⟨t, f, hcast, hf, hanswered⟩ := ht pre e n mid rfl
    have hin : ⟨.frame e, n⟩ ∈ pre ++ (⟨.frame e, n⟩ :: mid : List Report) :=
      List.mem_append_right _ List.mem_cons_self
    exact ⟨t, f, hcast, hf, hanswered.append (hs e n hin)⟩

theorem cons {b : Report} (ht : Framed s cast tr) (hb : ∀ e, b.event ≠ .frame e) :
    Framed s cast (b :: tr) := by
  intro pre e n post he
  rcases List.cons_eq_append_iff.mp he with ⟨rfl, hhead⟩ | ⟨pre, rfl, rfl⟩
  · cases hhead
    exact absurd rfl (hb e)
  · exact ht pre e n post rfl

theorem frame {t : Timeline} (ht : Framed s cast tr) (hcast : (e.animator, t) ∈ cast)
    (hf : t.frames[e.frame]? = some f) (hanswered : Answered s e n f tr) :
    Framed s cast (⟨.frame e, n⟩ :: tr) := by
  intro pre e' n' post he
  rcases List.cons_eq_append_iff.mp he with ⟨rfl, hhead⟩ | ⟨pre, rfl, rfl⟩
  · cases hhead
    exact ⟨t, f, hcast, hf, hanswered⟩
  · exact ht pre e' n' post rfl

theorem asides {es : List Event} (ht : Framed s cast tr) (hes : ∀ e ∈ es, e.isAside = true)
    (n : Node) : Framed s cast (es.map (⟨·, n⟩) ++ tr) := by
  have hnone : ∀ b ∈ es.map (fun e => Report.mk e n), ∀ e, b.event ≠ .frame e := by
    intro b hb e he
    have haside := isAside_of_mem_map hes hb
    rw [he] at haside
    cases haside
  exact (of_forall hnone).append ht fun e m hin => absurd rfl (hnone _ hin e)

end Framed

/-- The animators that play one after the other are different children of one animator. -/
def Task.Distinct (events : List Event) : Task → Prop
  | .children gs => gs.Nodup ∧ ∃ h, ∀ g ∈ gs, Begets events h g
  | _ => True

/-- Every frame in the trace of a play is answered, whoever plays it and whatever is retired meanwhile. -/
theorem Unfolds.framed (hz : z.Sparing s before) (hl : Lineage root (z.history past))
    (hp : Unfolds s task n r tr n' r') (hr : r.Traced s before root past) (hend : Later r' z)
    (hdistinct : task.Distinct (z.history past)) : Framed s (z.cast s before) tr := by
  have hkeeps := keeps_traced s before root past
  have hlisted : ∀ {h : Handle} {r : Run} {x : Animation}, r.Traced s before root past → Later r z →
      r.arena.get? h = some x → (Task.children x.children).Distinct (z.history past) := by
    intro h r x hr hlater hx
    have hsub := hr.sublist_later hz hlater hx
    have hnodup := (List.nodup_cons.mp hl.nodup).2
    exact ⟨hnodup.sublist (hsub.trans (offspring_sublist_arrivals h _)), h, hsub.subset⟩
  induction hp with
  | still => exact .of_forall fun b hb => absurd hb List.not_mem_nil
  | retired live _ below _ ih => exact ih hr hend (hlisted hr (below.later.trans hend) live)
  | @beyond h _ _ _ r₁ _ _ _ live _ below _ _ ih =>
    have hmid := ((keeps_later s r₁).seek (.refl r₁) h _).trans hend
    exact ih hr hmid (hlisted hr (below.later.trans hmid) live)
  | @frame h n n₁ n₂ r r₁ r₂ tr tr' x y f number looped live _ below _ _ _ hframe batch ih ih' =>
    obtain ⟨hstart, hr', hlast, hmid⟩ := amid_frame (below.keeps hkeeps hr) batch hend
    have hnow := below.later.trans hmid
    have hcast := (hnow.cast_sublist s before).subset (hr.staffed h x live)
    refine (ih hr hmid (hlisted hr hnow live)).append ((ih' hr' hlast trivial).frame hcast hframe
      (batch.answered hz hl f number looped hr' hlast)) fun e m hin => ?_
    -- who played below is below a child that was there before the batch
    obtain ⟨g, hg, hk⟩ := below.owners hz hr hmid _ hin e.animator rfl
    have hbegets := (hr.sublist (hz.earlier hnow) live).subset hg
    have hchild := Begets.mono hbegets (hnow.history past)
    refine (batch.silent hz hr' hlast ?_).cons nofun
    rintro (he | ⟨c, hc, hnew, hkc⟩)
    · exact hl.not_below hchild (he ▸ hk)
    · rw [hl.branch hc hchild hkc hk] at hnew
      exact hnew ((below.later.trans hstart).issued_subset (hr.issued_of_begets hbegets))
  | last => exact .of_forall fun b hb => absurd hb List.not_mem_nil
  | nested _ inner _ rest ih ih' =>
    obtain ⟨hnodup, h, hbegets⟩ := hdistinct
    obtain ⟨hg, hnodup⟩ := List.nodup_cons.mp hnodup
    have hmid := rest.later.trans hend
    have hr₁ := inner.keeps hkeeps hr
    have hlater := fun g hg => hbegets g (List.mem_cons_of_mem _ hg)
    refine (ih hr hmid trivial).append (ih' hr₁ hend ⟨hnodup, h, hlater⟩) fun e m hin => ?_
    have hk := inner.owners hz hr hmid _ hin e.animator rfl
    refine rest.silent hz hr₁ hend ?_
    rintro ⟨g', hg', hk'⟩
    rw [hl.branch (hbegets _ List.mem_cons_self) (hlater g' hg') hk hk'] at hg
    exact hg hg'
  | detached _ hnext hes _ ih =>
    subst hnext
    obtain ⟨hnodup, h, hbegets⟩ := hdistinct
    refine (ih (hkeeps.detach hr _) hend ⟨(List.nodup_cons.mp hnodup).2, h, fun g hg => ?_⟩).asides
      hes.isAside_detach _
    exact hbegets g (List.mem_cons_of_mem _ hg)
  | done => exact .of_forall fun b hb => absurd hb List.not_mem_nil
  | @plain h c _ _ _ _ _ _ _ _ _ _ hstill hexec hes _ ih =>
    obtain ⟨-, hr'⟩ := amid_plain hr hexec c.kind c.object
    exact ((ih hr' hend trivial).cons (by simp)).asides (hstill.asides hexec hes).isAside _
  | @clip h child char object _ m t cs _ _ _ r _ _ _ _ hchar _ hchild inner rest ih ih' =>
    subst hchild
    obtain ⟨hr', hr₁, hmid, hplayed, -⟩ := amid_clip hr hchar inner rest hend
    have hbegets := r.begets_start past t h (r.spawnDepth h) object char
    have hchild := hbegets.mono ((inner.later.trans hmid).history past)
    refine ((ih hr' hmid trivial).append ((ih' hr₁ hend trivial).cons (by simp))
      fun e m hin => ?_).cons (by simp)
    -- who played in the clip is below the clip, and later clips are new
    have hk := inner.owners hz hr' hmid _ hin e.animator rfl
    refine (rest.silent hz hr₁ hend ?_).cons fun kind id outcome he => ?_
    · rintro (he | ⟨c, hc, hnew, hkc⟩)
      · exact hl.not_below hchild (he ▸ hk)
      · rw [hl.branch hc hchild hkc hk] at hnew
        exact hnew (hplayed.issued_subset (hr'.issued_of_begets hbegets))
    · cases he
      exact hl.not_below hchild hk

end Frames

end SceneReel
