import SceneReel.Asset.Library
import SceneReel.Proofs.Arena.Retire
import SceneReel.Trace.Event

/-!
The order in which events come. An animator that plays lets the animators below it play, one after the
other; then comes its frame, and then a batch of commands, in the midst of which new clips play their
first frames. What this says of the events in a whole is read off by induction.
-/
namespace SceneReel

open Arena (Forest Descends Lists)

/-- Neither a frame nor the start of an animator. -/
def Event.isQuiet : Event → Bool
  | .frame _ | .spawn .. => false
  | _ => true

def Event.isFrameOf (h : Handle) : Event → Bool
  | .frame e => e.animator = h
  | _ => false

/-- The start of an animator of a timeline that has frames. -/
def Event.startsAwake (resolve : CharId → Option Resolved) (h : Handle) : Event → Bool
  | .spawn _ child _ char =>
    child = h && match resolve char with
      | some (.timeline t) => t.frameCount ≠ 0
      | _ => false
  | _ => false

namespace Event

variable {resolve : CharId → Option Resolved} {e : Event}

@[simp] theorem isFrameOf_frame (f : FrameEvent) (h : Handle) :
    (frame f).isFrameOf h = decide (f.animator = h) := rfl

theorem isFrameOf_of_quiet (he : e.isQuiet = true) (h : Handle) : e.isFrameOf h = false := by
  cases e <;> first | rfl | cases he

theorem startsAwake_of_quiet (he : e.isQuiet = true) (h : Handle) :
    e.startsAwake resolve h = false := by
  cases e <;> first | rfl | cases he

@[simp] theorem isFrameOf_spawn (parent child : Handle) (object : ObjectId) (char : CharId)
    (h : Handle) : (spawn parent child object char).isFrameOf h = false := rfl

@[simp] theorem startsAwake_frame (f : FrameEvent) (h : Handle) :
    (frame f).startsAwake resolve h = false := rfl

theorem startsAwake_spawn {char : CharId} {t : Timeline}
    (hchar : resolve char = some (.timeline t)) (parent child : Handle) (object : ObjectId)
    (h : Handle) : (spawn parent child object char).startsAwake resolve h =
      (decide (child = h) && decide (t.frameCount ≠ 0)) := by
  simp only [startsAwake, hchar]

end Event

def Arena.awake (a : Arena) (h : Handle) : Bool :=
  match a.get? h with
  | some x => x.timeline.frameCount ≠ 0
  | none => false

theorem Arena.awake_iff {a : Arena} {h : Handle} :
    a.awake h = true ↔ ∃ x, a.get? h = some x ∧ x.timeline.frameCount ≠ 0 := by
  unfold awake
  cases a.get? h <;> simp

def Silent (u : Handle) (es : List Event) : Prop :=
  ∀ kind id outcome, Event.command u kind id outcome ∉ es

namespace Silent

variable {u : Handle} {es es' : List Event}

theorem nil (u : Handle) : Silent u [] :=
  fun _ _ _ => List.not_mem_nil

theorem cons {b : Event} (h : Silent u es) (hb : ∀ kind id outcome, b ≠ .command u kind id outcome) :
    Silent u (b :: es) := by
  intro kind id outcome hin
  rcases List.mem_cons.mp hin with he | hin
  · exact hb kind id outcome he.symm
  · exact h kind id outcome hin

theorem append (h : Silent u es) (h' : Silent u es') : Silent u (es ++ es') := by
  intro kind id outcome hin
  rcases List.mem_append.mp hin with hin | hin
  · exact h kind id outcome hin
  · exact h' kind id outcome hin

end Silent

section Grammar

variable (resolve : CharId → Option Resolved)

/-- What an animator reports after its frame. A clip that starts plays at once, before the command that
has placed it. -/
inductive Batch : Handle → List Event → Prop
  | nil {h : Handle} : Batch h []
  | quiet {h : Handle} {e : Event} {es : List Event} (he : e.isQuiet = true) (rest : Batch h es) :
      Batch h (e :: es)
  | still {h child : Handle} {object : ObjectId} {char : CharId} {t : Timeline} {es : List Event}
      (hchar : resolve char = some (.timeline t)) (hempty : t.frameCount = 0) (rest : Batch h es) :
      Batch h (.spawn h child object char :: es)
  | clip {h child : Handle} {object : ObjectId} {char : CharId} {t : Timeline} {e : FrameEvent}
      {outcome : Outcome} {body es : List Event} (hchar : resolve char = some (.timeline t))
      (hcount : t.frameCount ≠ 0) (he : e.animator = child) (inner : Batch child body)
      (apart : Silent h body) (rest : Batch h es) :
      Batch h (.spawn h child object char :: .frame e ::
        (body ++ .command h .place object outcome :: es))

/-- After the start of an animator with frames comes its first one, and then the command that has placed
the clip. -/
def Placed (parent child : Handle) (object : ObjectId) (char : CharId) (post : List Event) : Prop :=
  ∃ t, resolve char = some (.timeline t) ∧ (t.frameCount ≠ 0 →
    ∃ e mid outcome rest, e.animator = child ∧
      post = .frame e :: (mid ++ .command parent .place object outcome :: rest) ∧ Silent parent mid)

/-- What an animator of an arena reports when it plays: what those below it report, then its frame. -/
inductive Cascade (a : Arena) : Handle → List Event → Prop
  | still {h : Handle} {x : Animation} (live : a.get? h = some x)
      (hempty : x.timeline.frameCount = 0) (childless : x.children = []) : Cascade a h []
  | frame {h : Handle} {x : Animation} {e : FrameEvent} {batch : List Event}
      (live : a.get? h = some x) (hcount : x.timeline.frameCount ≠ 0)
      (block : Handle → List Event) (below : ∀ g ∈ x.children, Cascade a g (block g))
      (he : e.animator = h) (after : Batch resolve h batch) :
      Cascade a h (x.children.flatMap block ++ .frame e :: batch)

end Grammar

variable {resolve : CharId → Option Resolved} {a a' : Arena} {g h k : Handle} {es pre post : List Event}

theorem Placed.append {parent child : Handle} {object : ObjectId} {char : CharId}
    (hp : Placed resolve parent child object char post) (es : List Event) :
    Placed resolve parent child object char (post ++ es) := by
  obtain ⟨t, hchar, hplays⟩ := hp
  refine ⟨t, hchar, fun hcount => ?_⟩
  obtain ⟨e, mid, outcome, rest, he, rfl, hapart⟩ := hplays hcount
  exact ⟨e, mid, outcome, rest ++ es, he, by simp, hapart⟩

namespace Batch

theorem append_quiet (hq : ∀ e ∈ es, e.isQuiet = true) (hb : Batch resolve h post) :
    Batch resolve h (es ++ post) := by
  induction es with
  | nil => exact hb
  | cons e es ih =>
    exact .quiet (hq e List.mem_cons_self) (ih fun b hb => hq b (List.mem_cons_of_mem _ hb))

theorem count_frames (hb : Batch resolve h es) (k : Handle) :
    es.countP (·.isFrameOf k) = es.countP (·.startsAwake resolve k) := by
  induction hb with
  | nil => rfl
  | quiet he _ ih =>
    simp only [List.countP_cons, Event.isFrameOf_of_quiet he, Event.startsAwake_of_quiet he, ih]
  | still hchar hempty _ ih =>
    simp [Event.startsAwake_spawn hchar, hempty, ih]
  | clip hchar hcount he _ _ _ ih ih' =>
    have hcommand : ∀ (h : Handle) (id : ObjectId) (outcome : Outcome),
        (Event.command h .place id outcome).isQuiet = true := fun _ _ _ => rfl
    simp only [List.countP_cons, List.countP_append, Event.isFrameOf_spawn, Event.isFrameOf_frame,
      Event.startsAwake_spawn hchar, Event.startsAwake_frame, Event.isFrameOf_of_quiet (hcommand ..),
      Event.startsAwake_of_quiet (hcommand ..), he, ih, ih']
    simp only [ne_eq, hcount, not_false_eq_true, decide_true, Bool.and_true, Bool.false_eq_true,
      if_false]
    omega

/-- A start is reported by one that has played a frame, and followed by what the placement says. -/
theorem spawned (hb : Batch resolve h es) {parent child : Handle} {object : ObjectId} {char : CharId}
    (he : es = pre ++ .spawn parent child object char :: post) :
    (parent = h ∨ ∃ f, .frame f ∈ pre ∧ f.animator = parent) ∧
      Placed resolve parent child object char post := by
  have hmore : ∀ {l l' : List Event}, (∃ f, Event.frame f ∈ l ∧ f.animator = parent) → l ⊆ l' →
      ∃ f, Event.frame f ∈ l' ∧ f.animator = parent := fun ⟨f, hf, hfp⟩ hl => ⟨f, hl hf, hfp⟩
  induction hb generalizing pre post with
  | nil => exact absurd he.symm (by simp)
  | quiet hquiet _ ih =>
    rcases List.cons_eq_append_iff.mp he with ⟨-, hhead⟩ | ⟨pre, rfl, htail⟩
    · cases hhead
      cases hquiet
    · obtain ⟨hframe, hplaced⟩ := ih htail
      exact ⟨hframe.imp_right (hmore · (List.subset_cons_self _ _)), hplaced⟩
  | still hchar hempty _ ih =>
    rcases List.cons_eq_append_iff.mp he with ⟨-, hhead⟩ | ⟨pre, rfl, htail⟩
    · cases hhead
      exact ⟨.inl rfl, _, hchar, fun hcount => absurd hempty hcount⟩
    · obtain ⟨hframe, hplaced⟩ := ih htail
      exact ⟨hframe.imp_right (hmore · (List.subset_cons_self _ _)), hplaced⟩
  | @clip h c o char' t e outcome body rest hchar hcount hec hbody hapart _ ih ih' =>
    rcases List.cons_eq_append_iff.mp he with ⟨-, hhead⟩ | ⟨pre, rfl, htail⟩
    · cases hhead
      exact ⟨.inl rfl, _, hchar, fun _ => ⟨e, body, outcome, rest, hec, rfl, hapart⟩⟩
    rcases List.cons_eq_append_iff.mp htail with ⟨-, hhead⟩ | ⟨pre, rfl, hrest⟩
    · cases hhead
    rcases List.append_eq_append_iff.mp hrest with ⟨pre, rfl, hafter⟩ | ⟨mid, hmid, hpost⟩
    · -- the start comes after the clip
      rcases List.cons_eq_append_iff.mp hafter with ⟨-, hhead⟩ | ⟨pre, rfl, hlast⟩
      · cases hhead
      · obtain ⟨hframe, hplaced⟩ := ih' hlast
        refine ⟨hframe.imp_right (hmore · ?_), hplaced⟩
        intro b hb
        simp [hb]
    · -- the start is one of those that the clip reports
      rcases List.cons_eq_append_iff.mp hpost with ⟨rfl, hhead⟩ | ⟨mid, rfl, rfl⟩
      · cases hhead
      · obtain ⟨hframe, hplaced⟩ := ih hmid
        refine ⟨.inr ?_, hplaced.append _⟩
        rcases hframe with rfl | hframe
        · exact ⟨e, by simp, hec⟩
        · refine hmore hframe fun b hb => ?_
          simp [hb]

end Batch

theorem exists_of_flatMap {gs : List Handle} {block : Handle → List Event} {b : Event}
    (he : gs.flatMap block = pre ++ b :: post) :
    ∃ g ∈ gs, ∃ before after rest, block g = before ++ b :: after ∧ before ⊆ pre ∧
      post = after ++ rest := by
  induction gs generalizing pre with
  | nil => exact absurd he.symm (by simp)
  | cons g gs ih =>
    rw [List.flatMap_cons] at he
    rcases List.append_eq_append_iff.mp he with ⟨before, rfl, htail⟩ | ⟨after, hg, hpost⟩
    · obtain ⟨k, hk, l, l', rest, hblock, hl, hpost⟩ := ih htail
      exact ⟨k, List.mem_cons_of_mem g hk, l, l', rest, hblock,
        fun c hc => List.mem_append_right _ (hl hc), hpost⟩
    · rcases List.cons_eq_append_iff.mp hpost with ⟨rfl, hhead⟩ | ⟨after, rfl, rfl⟩
      · rw [List.append_nil] at hg
        have hhead : gs.flatMap block = [] ++ b :: post := hhead
        obtain ⟨k, hk, l, l', rest, hblock, hl, hpost⟩ := ih hhead
        exact ⟨k, List.mem_cons_of_mem g hk, l, l', rest, hblock,
          fun c hc => absurd (hl hc) List.not_mem_nil, hpost⟩
      · exact ⟨g, List.mem_cons_self, pre, after, _, hg, List.Subset.refl _, rfl⟩

namespace Cascade

variable {x : Animation}

/-- What an animator reports depends on those that descend from it alone. -/
theorem congr (hc : Cascade resolve a h es)
    (hagree : ∀ k, Descends a.slots h k → a'.get? k = a.get? k) : Cascade resolve a' h es := by
  induction hc with
  | still live hempty childless => exact .still ((hagree _ .refl).trans live) hempty childless
  | @frame h x e batch live hcount block below he after ih =>
    refine .frame ((hagree _ .refl).trans live) hcount block (fun g hg => ih g hg fun k hd => ?_)
      he after
    exact hagree k (.head ⟨x, live, hg⟩ hd)

/-- What a clip reports that has just started stands in a batch of its parent, if it reports no command
of the parent. -/
theorem batch {child : Handle} {t : Timeline} {d : Nat} {char : CharId} {object : ObjectId}
    (hc : Cascade resolve a child es)
    (hx : a.get? child = some { timeline := t, parent := some h, depth := d })
    (hchar : resolve char = some (.timeline t))
    (hapart : Silent h es) (outcome : Outcome) (rest : Batch resolve h post) : Batch resolve h
      (.spawn h child object char :: es ++ .command h .place object outcome :: post) := by
  cases hc with
  | still live hempty _ =>
    rw [hx] at live
    cases live
    exact .still hchar hempty (.quiet rfl rest)
  | frame live hcount block _ he after =>
    rw [hx] at live
    cases live
    refine .clip hchar hcount he after (fun kind id outcome hin => ?_) rest
    exact hapart kind id outcome (List.mem_cons_of_mem _ hin)

/-- Each descendant with frames has its frame right after the blocks of its own children. -/
theorem nested (hc : Cascade resolve a h es) (hd : Descends a.slots h k)
    (hx : a.get? k = some x) (hcount : x.timeline.frameCount ≠ 0) :
    ∃ pre block e post, es = pre ++ (x.children.flatMap block ++ .frame e :: post) ∧
      e.animator = k ∧ ∀ g ∈ x.children, Cascade resolve a g (block g) := by
  induction hc with
  | @still h y live hempty childless =>
    rcases hd.cases_head with rfl | ⟨g, ⟨z, hz, hg⟩, -⟩
    · rw [live] at hx
      cases hx
      exact absurd hempty hcount
    · rw [show Arena.lookup a.slots h = some y from live] at hz
      cases hz
      rw [childless] at hg
      cases hg
  | @frame h y e batch live _ block below he after ih =>
    rcases hd.cases_head with rfl | ⟨g, ⟨z, hz, hg⟩, hd⟩
    · rw [live] at hx
      cases hx
      exact ⟨[], block, e, batch, rfl, he, below⟩
    · rw [show Arena.lookup a.slots h = some y from live] at hz
      cases hz
      obtain ⟨pre, inner, f, post, hes, hf, hbelow⟩ := ih g hg hd
      obtain ⟨before, rest, hsplit⟩ := List.append_of_mem hg
      refine ⟨before.flatMap block ++ pre, inner, f,
        post ++ (rest.flatMap block ++ .frame e :: batch), ?_, hf, hbelow⟩
      rw [hsplit, List.flatMap_append, List.flatMap_cons, hes]
      simp only [List.append_assoc, List.cons_append]

theorem exists_frame (hc : Cascade resolve a h es) (hd : Descends a.slots h k)
    (hk : a.awake k = true) : ∃ e, .frame e ∈ es ∧ e.animator = k := by
  obtain ⟨x, hx, hcount⟩ := Arena.awake_iff.mp hk
  obtain ⟨pre, block, e, post, rfl, he, -⟩ := hc.nested hd hx hcount
  exact ⟨e, by simp, he⟩

private theorem count_blocks (block : Handle → List Event) {gs : List Handle}
    (hsame : ∀ g ∈ gs, (block g).countP (·.isFrameOf k) = (block g).countP (·.startsAwake resolve k)) :
    (gs.flatMap block).countP (·.isFrameOf k) =
      (gs.flatMap block).countP (·.startsAwake resolve k) := by
  induction gs with
  | nil => rfl
  | cons g gs ih =>
    rw [List.flatMap_cons, List.countP_append, List.countP_append, hsame g List.mem_cons_self,
      ih fun b hb => hsame b (List.mem_cons_of_mem g hb)]

/-- How often an animator plays a frame: once if it has frames and is below the one that plays, and once
a start. -/
theorem count_frames (hc : Cascade resolve a h es) (hf : Forest a.slots) (k : Handle) :
    (Descends a.slots h k ∧ a.awake k = true →
      es.countP (·.isFrameOf k) = 1 + es.countP (·.startsAwake resolve k)) ∧
    (¬ (Descends a.slots h k ∧ a.awake k = true) →
      es.countP (·.isFrameOf k) = es.countP (·.startsAwake resolve k)) := by
  induction hc with
  | @still h x live hempty childless =>
    refine ⟨fun ⟨hd, hk⟩ => ?_, fun _ => rfl⟩
    rcases hd.cases_head with rfl | ⟨g, ⟨z, hz, hg⟩, -⟩
    · simp [Arena.awake, live, hempty] at hk
    · rw [show Arena.lookup a.slots h = some x from live] at hz
      cases hz
      rw [childless] at hg
      cases hg
  | @frame h x e batch live hcount block below he after ih =>
    have hlists : ∀ {g}, g ∈ x.children → Lists a.slots h g := fun hg => ⟨x, live, hg⟩
    have hawake : a.awake h = true := Arena.awake_iff.mpr ⟨x, live, hcount⟩
    simp only [List.countP_append, List.countP_cons, Event.isFrameOf_frame, Event.startsAwake_frame,
      after.count_frames k, he, Bool.false_eq_true, if_false, decide_eq_true_eq]
    by_cases hin : ∃ g ∈ x.children, Descends a.slots g k ∧ a.awake k = true
    · obtain ⟨g, hg, hd, hk⟩ := hin
      have hne : h ≠ k := by
        rintro rfl
        exact hf.not_descends (hlists hg) hd
      have hone := (ih g hg).1 ⟨hd, hk⟩
      -- no other child has the animator below it
      obtain ⟨before, rest, hsplit⟩ := List.append_of_mem hg
      have hnodup := hf.nodup live
      rw [hsplit] at hnodup
      have hothers : ∀ l : List Handle, l ⊆ x.children → g ∉ l →
          (l.flatMap block).countP (·.isFrameOf k) =
            (l.flatMap block).countP (·.startsAwake resolve k) := fun l hl hgl =>
        count_blocks block fun b hb => (ih b (hl hb)).2 fun ⟨hdb, _⟩ =>
          hgl (hf.child_unique (hlists (hl hb)) (hlists hg) hdb hd ▸ hb)
      have hmid := (List.nodup_cons.mp (List.perm_middle.nodup_iff.mp hnodup)).1
      have hbefore := hothers before (by simp [hsplit]) fun hb => hmid (List.mem_append_left _ hb)
      have hrest := hothers rest (fun b hb => by simp [hsplit, hb])
        fun hb => hmid (List.mem_append_right _ hb)
      rw [hsplit, List.flatMap_append, List.flatMap_cons]
      simp only [List.countP_append, hbefore, hrest, hone, hne, if_false]
      exact ⟨fun _ => by omega, fun hno => absurd ⟨.head (hlists hg) hd, hk⟩ hno⟩
    · have hnone := count_blocks block fun b hb =>
        (ih b hb).2 fun hboth => hin ⟨b, hb, hboth⟩
      rw [hnone]
      by_cases hk : h = k
      · subst hk
        rw [if_pos rfl]
        exact ⟨fun _ => by omega, fun hno => absurd ⟨.refl, hawake⟩ hno⟩
      · rw [if_neg hk]
        refine ⟨fun ⟨hd, hka⟩ => ?_, fun _ => by omega⟩
        rcases hd.cases_head with rfl | ⟨g, ⟨z, hz, hg⟩, hd⟩
        · exact absurd rfl hk
        · rw [show Arena.lookup a.slots h = some x from live] at hz
          cases hz
          exact absurd ⟨g, hg, hd, hka⟩ hin

theorem spawned (hc : Cascade resolve a h es) {parent child : Handle} {object : ObjectId}
    {char : CharId} (he : es = pre ++ .spawn parent child object char :: post) :
    (∃ f, .frame f ∈ pre ∧ f.animator = parent) ∧ Placed resolve parent child object char post := by
  induction hc generalizing pre post with
  | still => exact absurd he.symm (by simp)
  | @frame h x e batch live hcount block below hframe after ih =>
    rcases List.append_eq_append_iff.mp he with ⟨before, rfl, htail⟩ | ⟨rest, hblocks, hpost⟩
    · rcases List.cons_eq_append_iff.mp htail with ⟨-, hhead⟩ | ⟨before, rfl, hbatch⟩
      · cases hhead
      · obtain ⟨hparent, hplaced⟩ := after.spawned hbatch
        refine ⟨?_, hplaced⟩
        rcases hparent with rfl | ⟨f, hf, hfp⟩
        · exact ⟨e, by simp, hframe⟩
        · exact ⟨f, by simp [hf], hfp⟩
    · rcases List.cons_eq_append_iff.mp hpost with ⟨rfl, hhead⟩ | ⟨rest, rfl, rfl⟩
      · cases hhead
      · obtain ⟨g, hg, l, l', tail, hblock, hl, rfl⟩ := exists_of_flatMap hblocks
        obtain ⟨⟨f, hf, hfp⟩, hplaced⟩ := ih g hg hblock
        rw [List.append_assoc]
        exact ⟨⟨f, hl hf, hfp⟩, hplaced.append _⟩

end Cascade

end SceneReel
