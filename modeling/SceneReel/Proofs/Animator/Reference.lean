import Mathlib.Data.List.Nodup
import SceneReel.Animator.Basic
import SceneReel.Proofs.Playback.Spares
import SceneReel.Proofs.Timeline.Reading

/-!
A root animator shows what its frames say. After any number of ticks the children of its node are those
that a reading of the frames of the current round leaves, though playback never starts a round anew.
-/
namespace SceneReel

open SceneReel.Geometry

namespace Node

/-- The object of a node with the value that a reading says. -/
def entry (n : Node) : ObjectId × Transform :=
  (n.id, n.transform)

theorem map_fst_entry (n : Node) : (n.children.map entry).map Prod.fst = n.childIds := by
  rw [List.map_map]
  rfl

theorem map_entry_of_heads {cs ds : List Node} (h : cs.map head = ds.map head) :
    cs.map entry = ds.map entry := by
  have hentry : ∀ cs : List Node, cs.map entry = (cs.map head).map entry := by
    intro cs
    rw [List.map_map]
    rfl
  rw [hentry, h, ← hentry]

theorem child?_eq_some {n c : Node} {id : ObjectId} (h : n.child? id = some c) :
    c ∈ n.children ∧ c.id = id := by
  have hid := List.find?_some h
  exact ⟨List.mem_of_find?_eq_some h, of_decide_eq_true hid⟩

theorem child?_eq_none {n : Node} {id : ObjectId} (h : n.child? id = none) : id ∉ n.childIds := by
  intro hin
  obtain ⟨c, hc, hid⟩ := List.mem_map.mp hin
  exact List.find?_eq_none.mp h c hc (decide_eq_true hid)

end Node

theorem Command.respects_entry :
    Respects (fun n x => Node.entry n = x) nodes (entries Matrix.decompose) where
  id := fun _ _ h => congrArg Prod.fst h
  move := by
    rintro m n _ rfl
    rfl
  setVisible := by
    rintro b n _ rfl
    rfl

theorem Reads.child? {ρ : ObjectId → Option Transform} {n : Node}
    (h : Reads ρ (n.children.map Node.entry)) :
    n.childIds.Nodup ∧ ∀ id, (n.child? id).map Node.transform = ρ id := by
  refine ⟨n.map_fst_entry ▸ h.nodup, fun id => ?_⟩
  cases hc : n.child? id with
  | none =>
    have hout := Node.child?_eq_none hc
    rw [← Node.map_fst_entry] at hout
    rw [h.eq_none hout, Option.map_none]
  | some c =>
    obtain ⟨hmem, rfl⟩ := Node.child?_eq_some hc
    have hentry : (c.id, c.transform) ∈ n.children.map Node.entry := List.mem_map_of_mem hmem
    rw [(h.mem_iff c.id _).mp hentry, Option.map_some]

/-- Children with ids of their own read as what they show. -/
theorem reads_child? {n : Node} (h : n.childIds.Nodup) :
    Reads (fun id => (n.child? id).map Node.transform) (n.children.map Node.entry) := by
  refine ⟨n.map_fst_entry.symm ▸ h, fun id x => ?_⟩
  rw [List.mem_map, Option.map_eq_some_iff]
  constructor
  · rintro ⟨c, hc, he⟩
    cases he
    refine ⟨c, ?_, rfl⟩
    cases hfound : n.child? c.id with
    | none => exact absurd (List.mem_map_of_mem hc) (Node.child?_eq_none hfound)
    | some b =>
      obtain ⟨hb, hid⟩ := Node.child?_eq_some hfound
      rw [List.inj_on_of_nodup_map h hb hc hid]
  · rintro ⟨c, hc, rfl⟩
    obtain ⟨hmem, rfl⟩ := Node.child?_eq_some hc
    exact ⟨c, hmem, rfl⟩

section Root

variable {s : Setting} {p : Player} {h : Handle} {x : Animation} {n : Node} {r : Run}

theorem executeAll_entries (hk : p.KeepsHead) (cs : List Command) :
    (Command.executeAll s p h cs n r).1.children.map Node.entry =
      Command.arrangeAll (Command.entries Matrix.decompose) (fun _ object m => (object, m.decompose))
        cs (n.children.map Node.entry) := by
  induction cs generalizing n r with
  | nil => rfl
  | cons c cs ih =>
    rw [Command.executeAll_cons, ih]
    refine congrArg (Command.arrangeAll _ _ cs) (Command.map_arrange Command.respects_entry c _ ?_)
    intro char object before m _
    obtain ⟨hid, htransform, -⟩ := enter_shown (s := s) hk h char object m r
    rw [Node.entry, hid, htransform]

/-- A root animator plays the frame that its cursor has reached, from the first after the last one. -/
theorem playStep_root (hp : ∀ x, p.Spares h x) (hk : p.KeepsHead) (hr : r.arena.Roots h x)
    (hn : h ∉ n.handles) {ρ : ObjectId → Option Transform}
    (hreads : Reads ρ (n.children.map Node.entry)) {number : Nat} {frame : Frame}
    (hnumber : number = if x.cursor = x.timeline.frameCount then 0 else x.cursor)
    (hframe : x.timeline.frames[number]? = some frame) :
    (playStep s p h n r).2.arena.Roots h { x with cursor := number + 1 } ∧
    h ∉ (playStep s p h n r).1.handles ∧
    Reads (frame.read Matrix.decompose
        (if x.cursor = x.timeline.frameCount then fun _ => none else ρ))
      ((playStep s p h n r).1.children.map Node.entry) := by
  obtain ⟨l, hl⟩ := hr.live
  have hout : h ∉ l := hr.unlisted hl
  rw [playStep_eq s p hl (Timeline.frameCount_ne_zero hframe)]
  obtain ⟨hroots, hclear⟩ := playChildren_spares (s := s) (hp x) hk l hout hn hr
  have hheads := Node.map_entry_of_heads (playChildren_heads (s := s) hk l n r)
  generalize playChildren s p l n r = played at hroots hclear hheads
  obtain ⟨n', r'⟩ := played
  obtain ⟨l', hl'⟩ := hroots.live
  have hreads' : Reads ρ (n'.children.map Node.entry) := hheads ▸ hreads
  subst hnumber
  obtain ⟨hroots', hclear'⟩ := playFrame_root (s := s) hp hk x.timeline hclear hroots hframe
  refine ⟨hroots', hclear', ?_⟩
  have hfollow := hreads'.frame Matrix.decompose frame (x.cursor == x.timeline.frameCount)
  rw [Node.map_fst_entry] at hfollow
  rw [playFrame_eq s p hl' hframe]
  dsimp only
  rw [executeAll_entries hk]
  simpa only [beq_iff_eq] using hfollow

end Root

theorem map_reference (frames : List Frame) :
    (fun id => (reference frames id).map Matrix.decompose) =
      frames.foldl (Frame.read Matrix.decompose) fun _ => none := by
  have hmap : ∀ ρ : ObjectId → Option Matrix,
      (fun object => (frames.foldl (Frame.read id) ρ object).map Matrix.decompose) =
        frames.foldl (Frame.read Matrix.decompose) fun object => (ρ object).map Matrix.decompose := by
    induction frames with
    | nil => exact fun ρ => rfl
    | cons f frames ih =>
      intro ρ
      rw [List.foldl_cons, List.foldl_cons, ih, Frame.map_read]
      rfl
  exact hmap fun _ => none

namespace Animator

def ticks (resolve : CharId → Option Resolved) : Nat → Node × Animator → Node × Animator
  | 0, p => p
  | n + 1, p =>
    let (target, a) := ticks resolve n p
    let (target, a, _) := a.tick resolve target
    (target, a)

/-- An animator is at a frame of a timeline, and its target shows what a reading says. -/
structure Follows (t : Timeline) (cursor : Nat) (ρ : ObjectId → Option Transform)
    (p : Node × Animator) : Prop where
  roots : ∃ x, p.2.arena.Roots p.2.root x ∧ x.timeline = t ∧ x.cursor = cursor
  clear : p.2.root ∉ p.1.handles
  reads : Reads ρ (p.1.children.map Node.entry)

variable {t : Timeline} {cursor number : Nat} {ρ : ObjectId → Option Transform}
  {p : Node × Animator}

theorem Follows.tick (resolve : CharId → Option Resolved) (h : Follows t cursor ρ p) {frame : Frame}
    (hnumber : number = if cursor = t.frameCount then 0 else cursor)
    (hframe : t.frames[number]? = some frame) :
    Follows t (number + 1)
      (frame.read Matrix.decompose (if cursor = t.frameCount then fun _ => none else ρ))
      (ticks resolve 1 p) := by
  obtain ⟨target, a⟩ := p
  obtain ⟨⟨x, hroots, rfl, rfl⟩, hclear, hreads⟩ := h
  have hplayer := playChain_spares ⟨resolve, a.options⟩ a.root
  obtain ⟨hroots', hclear', hreads'⟩ := playStep_root (s := ⟨resolve, a.options⟩)
    (r := { arena := a.arena }) (fun x => (hplayer x (target.height + a.options.maxNestingDepth)).1)
    (hplayer x _).2 hroots hclear hreads hnumber hframe
  exact ⟨⟨_, hroots', rfl, rfl⟩, hclear', hreads'⟩

/-- After frame `i` of a round the target shows what its frames leave; the first round begins with what
was there. -/
theorem Follows.ticks (resolve : CharId → Option Resolved) {q i n : Nat} (h : Follows t 0 ρ p)
    (hn : n = q * t.frameCount + i)
    (hi : i < t.frameCount) :
    Follows t (i + 1)
      ((t.frames.take (i + 1)).foldl (Frame.read Matrix.decompose)
        (if q = 0 then ρ else fun _ => none))
      (ticks resolve (n + 1) p) := by
  have hframes : ∀ {k}, k < t.frameCount → ∃ frame, t.frames[k]? = some frame := fun hk =>
    ⟨_, List.getElem?_eq_getElem hk⟩
  have htake : ∀ {k frame}, t.frames[k]? = some frame →
      t.frames.take (k + 1) = t.frames.take k ++ [frame] := by
    intro k frame hframe
    rw [List.take_add_one, hframe]
    rfl
  obtain ⟨frame, hframe⟩ := hframes hi
  rw [htake hframe, List.foldl_append]
  induction n generalizing q i frame with
  | zero =>
    have hzero : q * t.frameCount = 0 ∧ i = 0 := by omega
    obtain ⟨hq, rfl⟩ := hzero
    have hq : q = 0 := (Nat.mul_eq_zero.mp hq).resolve_right (by omega)
    have hne : 0 ≠ t.frameCount := by omega
    have hnext := h.tick resolve (by rw [if_neg hne]) hframe
    rw [if_neg hne] at hnext
    rw [if_pos hq]
    exact hnext
  | succ n ih =>
    cases i with
    | zero =>
      -- the round before has just played its last frame
      cases q with
      | zero => omega
      | succ q =>
        rw [Nat.succ_mul] at hn
        have hlast : t.frameCount - 1 < t.frameCount := by omega
        obtain ⟨last, hlastFrame⟩ := hframes hlast
        have hprev := ih (q := q) (by omega) hlast last hlastFrame
        have hcursor : t.frameCount - 1 + 1 = t.frameCount := by omega
        rw [hcursor] at hprev
        have hnext := hprev.tick resolve (by rw [if_pos rfl]) hframe
        rw [if_pos rfl] at hnext
        exact hnext
    | succ i =>
      obtain ⟨before, hbefore⟩ := hframes (Nat.lt_of_succ_lt hi)
      have hprev := ih (q := q) (by omega) (Nat.lt_of_succ_lt hi) before hbefore
      have hne : i + 1 ≠ t.frameCount := by omega
      have hnext := hprev.tick resolve (by rw [if_neg hne]) hframe
      rw [if_neg hne] at hnext
      rw [htake hbefore, List.foldl_append]
      exact hnext

theorem roots_start (t : Timeline) (options : Options) :
    ∃ x, (start t options).arena.Roots (start t options).root x ∧ x.timeline = t ∧ x.cursor = 0 :=
  ⟨{ timeline := t }, .first_alloc t, rfl, rfl⟩

/-- After any number of ticks the target shows, each under an id of its own, what the frames of the round
leave. -/
theorem ticks_follow_reference (t : Timeline) (options : Options)
    (resolve : CharId → Option Resolved) (target : Node) (n : Nat) (ht : t.frameCount ≠ 0)
    (hn : 1 ≤ n) (hstart : target.children = [] ∨
      target.childIds.Nodup ∧ target.handles = [] ∧ t.frameCount < n) :
    (ticks resolve n (target, start t options)).1.childIds.Nodup ∧
    ∀ id, ((ticks resolve n (target, start t options)).1.child? id).map Node.transform =
      (reference (t.frames.take ((n - 1) % t.frameCount + 1)) id).map Matrix.decompose := by
  have hcount : 0 < t.frameCount := by omega
  have hclear : target.handles = [] := by
    rcases hstart with hempty | ⟨-, hhandles, -⟩
    · rw [Node.handles, hempty]
      rfl
    · exact hhandles
  have hdistinct : target.childIds.Nodup := by
    rcases hstart with hempty | ⟨hdistinct, -, -⟩
    · rw [Node.childIds, hempty]
      exact List.nodup_nil
    · exact hdistinct
  have hfollows : Follows t 0 (fun id => (target.child? id).map Node.transform)
      (target, start t options) :=
    ⟨roots_start t options, by rw [hclear]; exact List.not_mem_nil, reads_child? hdistinct⟩
  have hdiv : n - 1 = (n - 1) / t.frameCount * t.frameCount + (n - 1) % t.frameCount := by
    rw [Nat.mul_comm]
    exact (Nat.div_add_mod _ _).symm
  have hend := (hfollows.ticks resolve hdiv (Nat.mod_lt _ hcount)).reads
  have hround : (if (n - 1) / t.frameCount = 0 then fun id => (target.child? id).map Node.transform
      else fun _ => none) = fun _ => none := by
    split
    · rcases hstart with hempty | ⟨-, -, hn⟩
      · funext id
        rw [Node.child?, hempty]
        rfl
      · have hpos : 0 < (n - 1) / t.frameCount := Nat.div_pos (by omega) hcount
        omega
    · rfl
  rw [hround, ← map_reference, Nat.sub_add_cancel hn] at hend
  exact hend.child?

def replacing : Timeline :=
  ⟨[⟨[.known (.place ⟨1⟩ ⟨5⟩ none .identity)]⟩,
    ⟨[.known (.remove ⟨5⟩), .known (.place ⟨1⟩ ⟨6⟩ none .identity)]⟩]⟩

theorem replacing_follows_reference :
    let target : Node := { Node.container ⟨0⟩ with children := [.container ⟨9⟩] }
    let shown := (ticks (fun _ => none) 4 (target, start replacing)).1
    shown.childIds = [⟨6⟩] ∧ shown.childIds.Nodup ∧
      ∀ id, (shown.child? id).map Node.transform =
        (reference (replacing.frames.take 2) id).map Matrix.decompose := by
  refine ⟨by decide +kernel, ?_⟩
  exact ticks_follow_reference replacing {} (fun _ => none) _ 4 (by decide) (by decide)
    (.inr ⟨by decide, rfl, by decide⟩)

end Animator

end SceneReel
