import SceneReel.Proofs.Playback.LedgerPlay
import SceneReel.Proofs.Stage.Crowding
import SceneReel.Proofs.Stage.Mirror

/-!
The nesting limit of a stage is exact: clips within the limit have an animator and those one step beyond
have none, for good, and each clip that is inserted is reported as the one or the other.
-/
namespace SceneReel

theorem Node.at_of_descendant? {path : List ObjectId} {n m : Node}
    (h : n.descendant? path = some m) : At n path.length m := by
  induction path generalizing n with
  | nil =>
    cases h
    exact .root
  | cons id path ih =>
    obtain ⟨c, hc, hm⟩ := Option.bind_eq_some_iff.mp h
    exact Node.At.of_child (List.mem_of_find?_eq_some hc) (ih hm)

namespace Stage

open Node (At)

variable {s : Stage} {d : Nat} {c : Node}

/-- The nodes of a stage nest as deep as a limit allows. -/
structure NestsTo (s : Stage) (limit : Nat) : Prop where
  /-- No node lies more than one step beyond the limit. -/
  shallow : ∀ {d n}, At s.root d n → d ≤ limit + 1
  /-- A clip carries an animator just if it lies within the limit. -/
  carries_iff : ∀ {d n char g?}, At s.root d n → n.kind = .clip char g? →
    (g?.isSome = true ↔ d ≤ limit)
  /-- The animator that a clip carries is live and has the depth of the clip. -/
  level : ∀ {d n g}, At s.root d n → n.animator? = some g →
    ∃ x, s.animator.arena.get? g = some x ∧ x.depth = d
  /-- A node beyond the limit has no animator and no children. -/
  bare : ∀ {d n}, At s.root d n → limit < d → n.animator? = none ∧ n.children = []

theorem Coherent.child_nests {main : Timeline} {m : Node} (hs : s.Coherent main)
    (hm : At s.root d m) (hc : c ∈ m.children) :
    d ≤ s.setting.options.maxNestingDepth ∧
    (∀ g, c.animator? = some g → d + 1 ≤ s.setting.options.maxNestingDepth) ∧
    (c.animator? = none → c.children = [] ∧
      ∀ char, c.kind = .clip char none → d = s.setting.options.maxNestingDepth) := by
  obtain ⟨parent, h, -, hd⟩ := hs.driven_of_mem hm hc
  obtain ⟨-, -, -, within, -, -, -, -, bare, clips⟩ := hd
  refine ⟨within, fun g hg => ?_, bare c hc⟩
  obtain ⟨-, -, -, hwithin, -, -, -, -, -, -⟩ := clips c hc g hg
  exact hwithin

theorem Coherent.nestsTo {main : Timeline} (hs : s.Coherent main)
    (hroot : s.root.kind = .container) : s.NestsTo s.setting.options.maxNestingDepth where
  shallow hn := by
    cases hn with
    | root => exact Nat.zero_le _
    | child hm hc => exact Nat.succ_le_succ (hs.child_nests hm hc).1
  carries_iff {_ n char g?} hn hkind := by
    cases hn with
    | root =>
      rw [hroot] at hkind
      cases hkind
    | child hm hc =>
      obtain ⟨-, hcarries, hbare⟩ := hs.child_nests hm hc
      have hg : n.animator? = g? := by rw [Node.animator?, hkind]
      cases g? with
      | none =>
        have hlimit := (hbare hg).2 char hkind
        simp [hlimit]
      | some g => simpa using hcarries g hg
  level {_ n g} hn hg := by
    cases hn with
    | root =>
      rw [Node.animator?, hroot] at hg
      cases hg
    | child hm hc =>
      obtain ⟨h, x, -, hx, -, hdepth⟩ := hs.mirrors.refers hm hc hg
      exact ⟨x, hx, hdepth⟩
  bare {_ n} hn hlt := by
    cases hn with
    | root => exact absurd hlt (Nat.not_lt_zero _)
    | child hm hc =>
      obtain ⟨-, hcarries, hbare⟩ := hs.child_nests hm hc
      cases hg : n.animator? with
      | none => exact ⟨rfl, (hbare hg).1⟩
      | some g => exact absurd (hcarries g hg) (by omega)

def executed (s : Stage) : List Execution :=
  chainLedger s.setting (nestingBound s.setting s.root) 0 s.animator.root s.root
    { arena := s.animator.arena }

def executions (s : Stage) (n : Nat) : List Execution :=
  (List.range n).flatMap fun k => (s.advance k).executed

theorem Coherent.reported_tick {main : Timeline} (hs : s.Coherent main)
    (hfit : s.tick.1.animator.arena.Fits) : Reported s.setting s.executed s.tick.2 := by
  obtain ⟨es, hes, hreport⟩ :=
    (playChain_discloses s.setting main (nestingBound s.setting s.root)).plays
      (r := ⟨s.animator.arena, #[]⟩) hs.tree hfit
  have he : s.tick.2 = es := Eq.trans hes (List.nil_append es)
  rwa [he]

/-- A run reports the commands that it executes and the clips that they insert. -/
theorem Coherent.reported_record {main : Timeline} (hs : s.Coherent main) (n : Nat)
    (hfit : (s.advance n).animator.arena.Fits) :
    Reported s.setting (s.executions n) (s.record n #[]).2.toList := by
  induction n with
  | zero => exact .nil s.setting
  | succ n ih =>
    have hprev := fits_of_fits hfit (Nat.le_succ n)
    rw [advance_succ] at hfit
    have hnext := (hs.advance n hprev).reported_tick hfit
    rw [setting_advance] at hnext
    rw [record_succ, Array.toList_appendList, executions, List.range_succ, List.flatMap_append]
    simpa [executions] using (ih hprev).append hnext

/-- Clips have an animator just if they lie within the nesting limit, and are reported as started or as
too deep. -/
theorem nesting_limit_exact {library : Library} {main : Timeline} {options : Options}
    (hs : s = start library main options) (n : Nat) (hfit : (s.advance n).animator.arena.Fits) :
    (s.advance n).NestsTo options.maxNestingDepth ∧
    (∀ k ≤ n, ∀ path c char, (s.advance k).root.descendant? path = some c → c.kind = .clip char none →
      ∀ c', (s.advance n).root.descendant? path = some c' → c'.animator? = none ∧ c'.children = []) ∧
    Reported s.setting (s.executions n) (s.record n #[]).2.toList := by
  have hstart : s.Coherent main := hs ▸ coherent_start library main options
  have hlimit : s.setting.options = options := by
    rw [hs]
    rfl
  have hnests : ∀ k ≤ n, (s.advance k).NestsTo options.maxNestingDepth := by
    intro k hk
    have hnow := (hstart.advance k (fits_of_fits hfit hk)).nestsTo (kind_root_advance hs k)
    rwa [setting_advance, hlimit] at hnow
  refine ⟨hnests n (Nat.le_refl n), fun k hk path c char hc hkind c' hc' => ?_,
    hstart.reported_record n hfit⟩
  have hbeyond : ¬ path.length ≤ options.maxNestingDepth := fun hle => by
    cases ((hnests k hk).carries_iff (Node.at_of_descendant? hc) hkind).mpr hle
  exact (hnests n (Nat.le_refl n)).bare (Node.at_of_descendant? hc') (Nat.lt_of_not_le hbeyond)

def endless : Timeline :=
  ⟨[placing ⟨1⟩ ⟨5⟩, placing ⟨1⟩ ⟨6⟩]⟩

/-- The clips play the timeline that places them, and nest one deep; the innermost stay as they are. -/
theorem endless_stops_at_limit : ∃ s, s = start { timelines := Catalog.insert {} ⟨1⟩ endless } endless
      { maxNestingDepth := 1 } ∧
    inserted s.setting.resolve (s.executions 2) =
      [⟨⟨0, 0⟩, ⟨5⟩, ⟨1⟩, 1⟩, ⟨⟨1, 0⟩, ⟨5⟩, ⟨1⟩, 2⟩, ⟨⟨1, 0⟩, ⟨6⟩, ⟨1⟩, 2⟩,
        ⟨⟨0, 0⟩, ⟨6⟩, ⟨1⟩, 1⟩, ⟨⟨2, 0⟩, ⟨5⟩, ⟨1⟩, 2⟩] ∧
    (s.advance 2).NestsTo 1 ∧ Reported s.setting (s.executions 2) (s.record 2 #[]).2.toList ∧
    ∃ c', (s.advance 2).root.descendant? [⟨5⟩, ⟨5⟩] = some c' ∧ c'.animator? = none ∧
      c'.children = [] := by
  let s : Stage := start { timelines := Catalog.insert {} ⟨1⟩ endless } endless
    { maxNestingDepth := 1 }
  obtain ⟨hnests, hlater, hreport⟩ := nesting_limit_exact (s := s) rfl 2 (by decide +kernel)
  have hplaced : ((s.advance 1).root.descendant? [⟨5⟩, ⟨5⟩]).map Node.kind =
      some (.clip ⟨1⟩ none) := by decide +kernel
  have hthere : ((s.advance 2).root.descendant? [⟨5⟩, ⟨5⟩]).isSome = true := by decide +kernel
  obtain ⟨c, hc, hkind⟩ := Option.map_eq_some_iff.mp hplaced
  obtain ⟨c', hc'⟩ := Option.isSome_iff_exists.mp hthere
  exact ⟨s, rfl, by decide +kernel, hnests, hreport, c', hc',
    hlater 1 (by decide) _ c _ hc hkind c' hc'⟩

/-- Once the slots have run out, a clip of the root may carry an animator from the limit. -/
theorem crowded_not_nested : ∃ s, ofDocument (crowding {} [.known secondClip]) = .ok s ∧
    ¬ (s.advance 1).NestsTo 32 := by
  obtain ⟨z, c, b, hshares⟩ := crowded_shares
  obtain ⟨parent, hlive⟩ := hshares.live
  refine ⟨_, ofDocument_crowding _ _, fun hnests => ?_⟩
  have hb : b ∈ ((crowded {} [.known secondClip]).advance 1).root.children := by
    rw [hshares.children]
    exact List.mem_cons_of_mem c List.mem_cons_self
  obtain ⟨x, hx, hdepth⟩ := hnests.level (.child .root hb) hshares.shows
  rw [hlive] at hx
  cases hx
  cases hdepth

end Stage

end SceneReel
