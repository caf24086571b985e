import SceneReel.Proofs.Playback.Counted
import SceneReel.Proofs.Playback.Unfolds

/-!
The family tree of all animators that were ever started, as the events tell it. Retired animators keep
their place in it, so that whoever takes part in a play is below the one that plays, whatever was retired
in the meantime.
-/
namespace SceneReel

section Events

variable {root h k p q c : Handle} {events es : List Event}

def arrivals (events : List Event) : List Handle :=
  events.filterMap fun
    | .spawn _ child _ _ => some child
    | _ => none

theorem arrivals_append (events es : List Event) :
    arrivals (events ++ es) = arrivals events ++ arrivals es :=
  List.filterMap_append

theorem mem_arrivals : c ∈ arrivals events ↔ ∃ h object char, .spawn h c object char ∈ events := by
  rw [arrivals, List.mem_filterMap]
  constructor
  · rintro ⟨e, he, hc⟩
    cases e with
    | spawn h child object char =>
      cases hc
      exact ⟨h, object, char, he⟩
    | _ => cases hc
  · rintro ⟨h, object, char, he⟩
    exact ⟨_, he, rfl⟩

theorem mem_offspring : c ∈ offspring h events ↔ ∃ object char, .spawn h c object char ∈ events := by
  rw [offspring, List.mem_filterMap]
  constructor
  · rintro ⟨e, he, hc⟩
    cases e with
    | spawn parent child object char =>
      simp only [Option.ite_none_right_eq_some, Option.some.injEq] at hc
      obtain ⟨rfl, rfl⟩ := hc
      exact ⟨object, char, he⟩
    | _ => cases hc
  · rintro ⟨object, char, he⟩
    exact ⟨_, he, if_pos rfl⟩

theorem offspring_sublist_arrivals (h : Handle) (events : List Event) :
    (offspring h events).Sublist (arrivals events) := by
  induction events with
  | nil => exact .slnil
  | cons e events ih =>
    cases e with
    | spawn parent child object char =>
      by_cases hp : parent = h
      · simpa [offspring, arrivals, hp] using ih
      · simpa [offspring, arrivals, hp] using ih.cons child
    | _ => exact ih

theorem arrivals_eq_nil_of_isAside (hes : ∀ e ∈ es, e.isAside = true) : arrivals es = [] := by
  refine List.filterMap_eq_nil_iff.mpr fun e he => ?_
  have haside := hes e he
  cases e with
  | spawn => cases haside
  | _ => rfl

/-- One animator is reported to have started another. -/
def Begets (events : List Event) (p c : Handle) : Prop :=
  c ∈ offspring p events

/-- One animator is another, or was started by it or by one below it. -/
def Below (events : List Event) : Handle → Handle → Prop :=
  Relation.ReflTransGen (Begets events)

theorem Begets.mono (hc : Begets es p c) (hpre : es <+: events) : Begets events p c :=
  (hpre.sublist.filterMap _).subset hc

/-- Each animator was started by one that was there before. -/
def Lineal (root : Handle) (events : List Event) : Prop :=
  ∀ pre h c object char post, events = pre ++ .spawn h c object char :: post →
    h ∈ root :: arrivals pre

theorem Lineal.append (hl : Lineal root events) (hes : arrivals es = []) :
    Lineal root (events ++ es) := by
  intro pre h c object char post he
  rcases List.append_eq_append_iff.mp he with ⟨mid, rfl, hrest⟩ | ⟨mid, rfl, hrest⟩
  · rw [hrest, arrivals_append] at hes
    cases (List.append_eq_nil_iff.mp hes).2
  · rcases List.cons_eq_append_iff.mp hrest with ⟨rfl, rfl⟩ | ⟨mid, rfl, -⟩
    · cases hes
    · exact hl pre h c object char mid rfl

theorem Lineal.spawn (hl : Lineal root events) (hh : h ∈ root :: arrivals events) (object : ObjectId)
    (char : CharId) : Lineal root (events ++ [.spawn h c object char]) := by
  intro pre p g object' char' post he
  rcases List.append_eq_append_iff.mp he with ⟨mid, rfl, hrest⟩ | ⟨mid, rfl, hrest⟩
  · rcases List.cons_eq_append_iff.mp hrest with ⟨rfl, hhead⟩ | ⟨mid', rfl, hnil⟩
    · cases hhead
      rwa [List.append_nil]
    · cases (List.append_eq_nil_iff.mp hnil.symm).2
  · rcases List.cons_eq_append_iff.mp hrest with ⟨rfl, hhead⟩ | ⟨mid, rfl, -⟩
    · cases hhead
      rwa [List.append_nil] at hh
    · exact hl pre p g object' char' mid rfl

/-- No handle stands for two animators, and each animator was started by one that was there before. -/
structure Lineage (root : Handle) (events : List Event) : Prop where
  nodup : (root :: arrivals events).Nodup
  lineal : Lineal root events

namespace Lineage

theorem parent_unique (hl : Lineage root events) (hp : Begets events p c) (hq : Begets events q c) :
    p = q := by
  obtain ⟨object, char, hp⟩ := mem_offspring.mp hp
  obtain ⟨object', char', hq⟩ := mem_offspring.mp hq
  obtain ⟨pre, post, rfl⟩ := List.append_of_mem hp
  have hnodup := (List.nodup_cons.mp hl.nodup).2
  rw [arrivals_append, show arrivals (.spawn p c object char :: post) = c :: arrivals post from rfl,
    List.nodup_append, List.nodup_cons] at hnodup
  obtain ⟨-, ⟨hpost, -⟩, hpre⟩ := hnodup
  rcases List.mem_append.mp hq with hq | hq
  · exact absurd rfl (hpre c (mem_arrivals.mpr ⟨q, object', char', hq⟩) c List.mem_cons_self)
  · rcases List.mem_cons.mp hq with hq | hq
    · cases hq
      rfl
    · exact absurd (mem_arrivals.mpr ⟨q, object', char', hq⟩) hpost

theorem idxOf_lt (hl : Lineage root events) (hc : Begets events p c) :
    (root :: arrivals events).idxOf p < (root :: arrivals events).idxOf c := by
  obtain ⟨object, char, hin⟩ := mem_offspring.mp hc
  obtain ⟨pre, post, rfl⟩ := List.append_of_mem hin
  have hbefore := hl.lineal pre p c object char post rfl
  have hnodup := hl.nodup
  have hsplit : root :: arrivals (pre ++ .spawn p c object char :: post) =
      (root :: arrivals pre) ++ c :: arrivals post := by
    rw [arrivals_append]
    rfl
  rw [hsplit] at hnodup ⊢
  have hnew : c ∉ root :: arrivals pre := fun hin =>
    (List.nodup_append.mp hnodup).2.2 c hin c List.mem_cons_self rfl
  rw [List.idxOf_append_of_mem hbefore, List.idxOf_append_of_notMem hnew]
  have := List.idxOf_lt_length_iff.mpr hbefore
  omega

theorem idxOf_le (hl : Lineage root events) (hk : Below events h k) :
    (root :: arrivals events).idxOf h ≤ (root :: arrivals events).idxOf k := by
  induction hk with
  | refl => exact Nat.le_refl _
  | tail _ hc ih => exact ih.trans (hl.idxOf_lt hc).le

theorem not_below (hl : Lineage root events) (hc : Begets events p c) : ¬ Below events c p :=
  fun hp => Nat.not_le.mpr (hl.idxOf_lt hc) (hl.idxOf_le hp)

theorem branch (hl : Lineage root events) {c' : Handle} (hc : Begets events p c)
    (hc' : Begets events p c') (hk : Below events c k) (hk' : Below events c' k) : c = c' :=
  branch_unique (R := Begets events) hl.parent_unique hl.not_below hc hc' hk hk'

end Lineage

end Events

namespace Run

variable {s : Setting} {before : List (Handle × Timeline)} {root h g : Handle} {past : List Event}
  {r r' : Run} {x : Animation}

/-- All that was reported up to a point of a run, with what was reported before it. -/
def history (past : List Event) (r : Run) : List Event :=
  past ++ r.events.toList

theorem Later.history (hr : Later r r') (past : List Event) :
    r.history past <+: r'.history past :=
  (List.prefix_append_right_inj past).mpr hr.events

/-- The arena of a run, as far as the events so far tell of it. -/
structure Traced (s : Setting) (before : List (Handle × Timeline)) (root : Handle)
    (past : List Event) (r : Run) : Prop where
  reached : r.arena.Reached (r.cast s before)
  inOrder : r.InOrder past
  staffed : r.Staffed s before
  issued : r.issued s before = root :: arrivals (r.history past)

theorem history_emit (r : Run) (past : List Event) (e : Event) :
    (r.emit e).history past = r.history past ++ [e] := by
  simp [history]

theorem keeps_traced (s : Setting) (before : List (Handle × Timeline)) (root : Handle)
    (past : List Event) : s.Keeps (Traced s before root past) where
  emit {r e} hr he := by
    refine ⟨(keeps_reached s before).emit hr.reached he, (keeps_inOrder s past).emit hr.inOrder he,
      (keeps_staffed s before).emit hr.staffed he, ?_⟩
    have hnone : arrivals [e] = [] := by
      cases e with
      | spawn => cases he
      | _ => rfl
    rw [history_emit, arrivals_append, hnone, List.append_nil, ← hr.issued, issued, cast_emit he,
      issued]
  retire {r} hr reason h := by
    refine ⟨(keeps_reached s before).retire hr.reached reason h,
      (keeps_inOrder s past).retire hr.inOrder reason h,
      (keeps_staffed s before).retire hr.staffed reason h, ?_⟩
    obtain ⟨es, hes⟩ := ((keeps_later s r).retire (.refl r) reason h).events
    have hemits : r.Emits (r.retire reason h) es := hes.symm
    have hnone := arrivals_eq_nil_of_isAside hemits.isAside_retire
    rw [history, ← hes, ← List.append_assoc, arrivals_append, hnone, List.append_nil, issued,
      cast_retire]
    exact hr.issued
  start {r char t} hr hchar owner object := by
    refine ⟨(keeps_reached s before).start hr.reached hchar owner object,
      (keeps_inOrder s past).start hr.inOrder hchar owner object,
      (keeps_staffed s before).start hr.staffed hchar owner object, ?_⟩
    rw [issued_start before hchar, hr.issued, start, history_emit, arrivals_append]
    rfl
  modify hr h f hf := ⟨(keeps_reached s before).modify hr.reached h f hf,
    (keeps_inOrder s past).modify hr.inOrder h f hf,
    (keeps_staffed s before).modify hr.staffed h f hf, hr.issued⟩

theorem Traced.mem_issued (hr : r.Traced s before root past) (hspare : r.Sparing s before)
    (hx : r.arena.get? h = some x) : h ∈ r.issued s before :=
  (accounted_of_reached hr.reached).mem_issued hspare hx

theorem Traced.sublist (hr : r.Traced s before root past) (hspare : r.Sparing s before)
    (hx : r.arena.get? h = some x) : x.children.Sublist (offspring h (r.history past)) :=
  hr.inOrder.sublist hspare.1 hx

theorem Traced.sublist_later (hr : r.Traced s before root past) (hspare : r'.Sparing s before)
    (hlater : Later r r') (hx : r.arena.get? h = some x) :
    x.children.Sublist (offspring h (r'.history past)) :=
  (hr.sublist (hspare.earlier hlater) hx).trans ((hlater.history past).sublist.filterMap _)

theorem begets_start (r : Run) (past : List Event) (t : Timeline) (owner : Handle) (d : Nat)
    (object : ObjectId) (char : CharId) :
    Begets ((r.start t owner d object char).history past) owner (r.arena.spawn t owner d).1 := by
  rw [start, history_emit]
  exact mem_offspring.mpr ⟨object, char, List.mem_append_right _ List.mem_cons_self⟩

/-- Who was started so far has a handle that was given out. -/
theorem Traced.issued_of_begets (hr : r.Traced s before root past)
    (hg : Begets (r.history past) h g) : g ∈ r.issued s before := by
  rw [hr.issued]
  exact List.mem_cons_of_mem root ((offspring_sublist_arrivals h _).subset hg)

end Run

/-- The animator that plays a frame or executes a command. -/
def Event.actor? : Event → Option Handle
  | .frame e => some e.animator
  | .command h _ _ _ => some h
  | _ => none

theorem Event.actor?_of_isAside {e : Event} (he : e.isAside = true) : e.actor? = none := by
  cases e <;> first | rfl | cases he

def Task.Ready (issued : List Handle) : Task → Prop
  | .commands h _ => h ∈ issued
  | _ => True

/-- Who takes part in a task: those below the animators that play, and new ones that commands start. -/
def Task.Owns (events : List Event) (issued : List Handle) : Task → Handle → Prop
  | .animator h, k => Below events h k
  | .children gs, k => ∃ g ∈ gs, Below events g k
  | .commands h _, k => k = h ∨ ∃ c, Begets events h c ∧ c ∉ issued ∧ Below events c k

theorem Task.Owns.cons {events : List Event} {issued later : List Handle} {h k : Handle}
    {cs : List Command} (hk : (Task.commands h cs).Owns events later k) (hl : issued ⊆ later)
    (c : Command) : (Task.commands h (c :: cs)).Owns events issued k := by
  rcases hk with rfl | ⟨g, hg, hnew, hk⟩
  · exact .inl rfl
  · exact .inr ⟨g, hg, fun hin => hnew (hl hin), hk⟩

namespace Unfolds

open Run (Later keeps_later keeps_traced)

variable {s : Setting} {before : List (Handle × Timeline)} {root h k : Handle} {past : List Event}
  {task : Task} {n n' n₁ n₂ : Node} {r r' r₁ r₂ z : Run} {tr tr' : List Report} {number : Nat}
  {e : FrameEvent} {c : Command} {cs : List Command} {outcome : Outcome}

/-- On the way from the end of the nested animators to the end of a frame. -/
theorem amid_frame (hr : r₁.Traced s before root past)
    (batch : Unfolds s (.commands h cs) n ((r₁.seek h number).emit (.frame e)) tr' n₂ r₂)
    (hend : Later (r₂.advance h) z) :
    Later r₁ ((r₁.seek h number).emit (.frame e)) ∧
      ((r₁.seek h number).emit (.frame e)).Traced s before root past ∧ Later r₂ z ∧ Later r₁ z := by
  have hstart := (keeps_later s r₁).emit ((keeps_later s r₁).seek (.refl r₁) h number)
    (e := .frame e) rfl
  have hkeeps := keeps_traced s before root past
  have hlast := ((keeps_later s r₂).advance (.refl r₂) h).trans hend
  exact ⟨hstart, hkeeps.emit (hkeeps.seek hr h number) rfl, hlast,
    hstart.trans (batch.later.trans hlast)⟩

/-- On the way from a command that starts no clip to the next one. -/
theorem amid_plain (hr : r.Traced s before root past)
    (hexec : c.execute s idle h n r = (outcome, n', r₁)) (kind : CommandKind) (object : ObjectId) :
    Later r (r₁.emit (.command h kind object outcome)) ∧
      (r₁.emit (.command h kind object outcome)).Traced s before root past := by
  have hkeeps := keeps_traced s before root past
  exact ⟨(keeps_later s r).emit ((keeps_later s r).execute hexec (.refl r)) rfl,
    hkeeps.emit (hkeeps.execute hexec hr) rfl⟩

theorem amid_clip (hr : r.Traced s before root past) {char : CharId} {t : Timeline}
    (hchar : s.resolve char = some (.timeline t)) {object : ObjectId}
    (inner : Unfolds s task n (r.start t h (r.spawnDepth h) object char) tr n' r₁)
    (rest : Unfolds s (.commands h cs) n₁ (r₁.emit (.command h .place object outcome)) tr' n₂ r₂)
    (hend : Later r₂ z) :
    (r.start t h (r.spawnDepth h) object char).Traced s before root past ∧
      (r₁.emit (.command h .place object outcome)).Traced s before root past ∧ Later r₁ z ∧
      Later (r.start t h (r.spawnDepth h) object char) (r₁.emit (.command h .place object outcome)) ∧
      Later r (r₁.emit (.command h .place object outcome)) := by
  have hkeeps := keeps_traced s before root past
  have hr' := hkeeps.start hr hchar h object
  have hnext := (keeps_later s r₁).emit (.refl r₁) (e := .command h .place object outcome) rfl
  have hplayed := inner.later.trans hnext
  exact ⟨hr', hkeeps.emit (inner.keeps hkeeps hr') rfl, hnext.trans (rest.later.trans hend), hplayed,
    ((keeps_later s r).start (.refl r) hchar h object).trans hplayed⟩

/-- All that start in a play were started by someone who was there before. -/
theorem lineal (hz : z.Sparing s before) (hp : Unfolds s task n r tr n' r')
    (hr : r.Traced s before root past) (hend : Later r' z)
    (hready : task.Ready (r.issued s before)) (hl : Lineal root (r.history past)) :
    Lineal root (r'.history past) := by
  have hkeeps := keeps_traced s before root past
  induction hp with
  | still => exact hl
  | retired _ _ _ _ ih => exact ih hr hend trivial hl
  | @beyond h _ _ _ r₁ _ _ _ _ _ _ _ _ ih =>
    exact ih hr (((keeps_later s r₁).seek (.refl r₁) h _).trans hend) trivial hl
  | frame live _ below _ _ _ _ batch ih ih' =>
    obtain ⟨hstart, hr', hlast, hmid⟩ := amid_frame (below.keeps hkeeps hr) batch hend
    have hissued := hr.mem_issued (hz.earlier (below.later.trans hmid)) live
    refine ih' hr' hlast ((below.later.trans hstart).issued_subset hissued) ?_
    rw [Run.history_emit]
    exact (ih hr hmid trivial hl).append rfl
  | last => exact hl
  | nested _ inner _ rest ih ih' =>
    exact ih' (inner.keeps hkeeps hr) hend trivial (ih hr (rest.later.trans hend) trivial hl)
  | detached _ hnext hes _ ih =>
    subst hnext
    refine ih (hkeeps.detach hr _) hend trivial ?_
    rw [Run.history, hes, ← List.append_assoc]
    exact hl.append (arrivals_eq_nil_of_isAside hes.isAside_detach)
  | done => exact hl
  | @plain h c cs n n₁ n₂ r r₁ r₂ es outcome tr hstill hexec hes _ ih =>
    obtain ⟨hnext, hr'⟩ := amid_plain hr hexec c.kind c.object
    refine ih hr' hend (hnext.issued_subset hready) ?_
    rw [Run.history_emit, Run.history, hes, ← List.append_assoc]
    exact (hl.append (arrivals_eq_nil_of_isAside (hstill.asides hexec hes).isAside)).append rfl
  | @clip h child char object _ m t cs _ _ _ r _ _ _ _ hchar _ hchild inner rest ih ih' =>
    subst hchild
    obtain ⟨hr', hr₁, hmid, -, hnext⟩ := amid_clip hr hchar inner rest hend
    refine ih' hr₁ hend (hnext.issued_subset hready) ?_
    rw [Run.history_emit]
    refine (ih hr' hmid trivial ?_).append rfl
    rw [Run.start, Run.history_emit]
    refine hl.spawn ?_ object char
    have hin : h ∈ r.issued s before := hready
    rwa [hr.issued] at hin

theorem owners (hz : z.Sparing s before) (hp : Unfolds s task n r tr n' r')
    (hr : r.Traced s before root past) (hend : Later r' z) :
    ∀ b ∈ tr, ∀ k, b.event.actor? = some k →
      task.Owns (z.history past) (r.issued s before) k := by
  have hkeeps := keeps_traced s before root past
  have hasides : ∀ {e : Event} {k : Handle}, e.isAside = true → e.actor? ≠ some k := by
    intro e k he hk
    rw [Event.actor?_of_isAside he] at hk
    cases hk
  have hlisted : ∀ {h : Handle} {r : Run} {x : Animation} {k : Handle} {issued : List Handle},
      r.Traced s before root past → Later r z → r.arena.get? h = some x →
      (Task.children x.children).Owns (z.history past) issued k → Below (z.history past) h k := by
    intro h r x k issued hr hlater hx hk
    obtain ⟨g, hg, hk⟩ := hk
    exact hk.head ((hr.sublist_later hz hlater hx).subset hg)
  induction hp with
  | still => exact fun b hb => absurd hb List.not_mem_nil
  | retired live _ below _ ih =>
    exact fun b hb k hk => hlisted hr (below.later.trans hend) live (ih hr hend b hb k hk)
  | @beyond h _ _ _ r₁ _ _ _ live _ below _ _ ih =>
    have hmid := ((keeps_later s r₁).seek (.refl r₁) h _).trans hend
    exact fun b hb k hk => hlisted hr (below.later.trans hmid) live (ih hr hmid b hb k hk)
  | frame live _ below _ _ _ _ batch ih ih' =>
    obtain ⟨-, hr', hlast, hmid⟩ := amid_frame (below.keeps hkeeps hr) batch hend
    intro b hb k hk
    rcases List.mem_append.mp hb with hb | hb
    · exact hlisted hr (below.later.trans hmid) live (ih hr hmid b hb k hk)
    rcases List.mem_cons.mp hb with rfl | hb
    · cases hk
      exact .refl
    · rcases ih' hr' hlast b hb k hk with rfl | ⟨c, hc, -, hk⟩
      · exact .refl
      · exact hk.head hc
  | last => exact fun b hb => absurd hb List.not_mem_nil
  | nested _ inner _ rest ih ih' =>
    intro b hb k hk
    rcases List.mem_append.mp hb with hb | hb
    · exact ⟨_, List.mem_cons_self, ih hr (rest.later.trans hend) b hb k hk⟩
    · obtain ⟨g, hg, hk⟩ := ih' (inner.keeps hkeeps hr) hend b hb k hk
      exact ⟨g, List.mem_cons_of_mem _ hg, hk⟩
  | detached _ hnext hes _ ih =>
    subst hnext
    intro b hb k hk
    rcases List.mem_append.mp hb with hb | hb
    · exact absurd hk (hasides (isAside_of_mem_map hes.isAside_detach hb))
    · obtain ⟨g, hg, hk⟩ := ih (hkeeps.detach hr _) hend b hb k hk
      exact ⟨g, List.mem_cons_of_mem _ hg, hk⟩
  | done => exact fun b hb => absurd hb List.not_mem_nil
  | @plain h c cs n n₁ n₂ r r₁ r₂ es outcome tr hstill hexec hes _ ih =>
    obtain ⟨hnext, hr'⟩ := amid_plain hr hexec c.kind c.object
    intro b hb k hk
    rcases List.mem_append.mp hb with hb | hb
    · exact absurd hk (hasides (isAside_of_mem_map (hstill.asides hexec hes).isAside hb))
    rcases List.mem_cons.mp hb with rfl | hb
    · cases hk
      exact .inl rfl
    · exact (ih hr' hend b hb k hk).cons hnext.issued_subset c
  | @clip h child char object _ m t cs _ _ _ r _ _ _ _ hchar _ hchild inner rest ih ih' =>
    subst hchild
    obtain ⟨hr', hr₁, hmid, -, hnext⟩ := amid_clip hr hchar inner rest hend
    have hlater := inner.later.trans hmid
    intro b hb k hk
    rcases List.mem_cons.mp hb with rfl | hb
    · cases hk
    rcases List.mem_append.mp hb with hb | hb
    · have hfresh := (Run.accounted_of_reached hr.reached).fresh hchar h object (hz.earlier hlater)
      exact .inr ⟨_, (r.begets_start past t h _ object char).mono (hlater.history past), hfresh,
        ih hr' hmid b hb k hk⟩
    rcases List.mem_cons.mp hb with rfl | hb
    · cases hk
      exact .inl rfl
    · exact (ih' hr₁ hend b hb k hk).cons hnext.issued_subset _

theorem silent (hz : z.Sparing s before) (hp : Unfolds s task n r tr n' r')
    (hr : r.Traced s before root past) (hend : Later r' z)
    (hk : ¬ task.Owns (z.history past) (r.issued s before) k) : Silent k (tr.map Report.event) := by
  intro kind id outcome hin
  obtain ⟨b, hb, he⟩ := List.mem_map.mp hin
  refine hk (hp.owners hz hr hend b hb k ?_)
  rw [he]
  rfl

end Unfolds

end SceneReel
