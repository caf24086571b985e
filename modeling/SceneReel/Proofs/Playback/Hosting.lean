import SceneReel.Proofs.Playback.LinkedPlay
import SceneReel.Proofs.Playback.Scene

/-!
The order in which nested animators play. An animator lists those below it as they started; a scene has
its clips in the same order, and commands keep the two abreast.
-/
namespace SceneReel

open Node (hosted carriedAll)

variable {s : Setting} {main : Timeline} {p : Player} {parent : Option Handle} {d e : Nat}
  {g h : Handle} {n : Node} {r : Run} {x : Animation} {cs cs' : List Node} {ids : List ObjectId}

theorem Hosts.of_core {id : ObjectId} (hg : Hosts cs g id)
    (hcore : (cs.map Node.core).Perm (cs'.map Node.core)) : Hosts cs' g id := by
  refine hg.mono fun c hc _ => ?_
  obtain ⟨c', hc', he⟩ := List.mem_map.mp (hcore.subset (List.mem_map_of_mem hc))
  exact ⟨c', hc', congrArg Prod.fst he, Node.animator?_of_core he⟩

theorem Hosts.cons {id : ObjectId} (hg : Hosts cs g id) (c : Node) : Hosts (c :: cs) g id :=
  hg.mono fun b hb _ => ⟨b, List.mem_cons_of_mem c hb, rfl, rfl⟩

theorem Hosts.exchange {id : ObjectId} {c c' : Node} {pre post : List Node}
    (hg : Hosts (pre ++ c :: post) g id) (hhead : c'.head = c.head) :
    Hosts (pre ++ c' :: post) g id := by
  refine hg.mono fun b hb _ => ?_
  rcases List.mem_append.mp hb with hb | hb
  · exact ⟨b, List.mem_append_left _ hb, rfl, rfl⟩
  · rcases List.mem_cons.mp hb with rfl | hb
    · exact ⟨c', by simp, (Node.head_eq_iff.mp hhead).1, Node.animator?_of_head hhead⟩
    · exact ⟨b, by simp [hb], rfl, rfl⟩

theorem enter_hosts (hp : p.Links s main) (hl : Linked s main r.arena parent d h n.children)
    (hx : r.arena.get? h = some x) {char : CharId} {object : ObjectId} {mat : Geometry.Matrix}
    (hnew : object ∉ n.childIds) (hdecl : x.timeline.Declares object)
    (hde : d + e = s.options.maxNestingDepth)
    (hfit : (Command.enter s p h char object mat r).2.arena.Fits)
    (hhosts : List.Forall₂ (Hosts n.children) x.children ids) :
    ∃ l, (Command.enter s p h char object mat r).2.arena.get? h = some { x with children := l } ∧
      List.Forall₂ (Hosts ((Command.enter s p h char object mat r).1 :: n.children)) l
        (if (Seat.fresh s.resolve e char object mat).clip?.isSome then ids ++ [object] else ids) := by
  have hstay : ∀ c : Node, List.Forall₂ (Hosts (c :: n.children)) x.children ids := fun c =>
    hhosts.imp fun _ _ hg => hg.cons c
  by_cases hr : ∃ t, s.resolve char = some (.timeline t)
  · obtain ⟨t, hr⟩ := hr
    cases e with
    | zero =>
      rw [hl.enter_of_le hr (by omega)]
      refine ⟨x.children, hx, ?_⟩
      simp only [Seat.fresh, hr]
      exact hstay _
    | succ e =>
      have hd : d < s.options.maxNestingDepth := by omega
      rw [hl.enter_of_lt hr hd] at hfit ⊢
      have hroom : (r.arena.spawn t h (d + 1)).2.Fits := hfit.mono (hp.grows _ _ (r.start ..))
      generalize hb : ({ id := _, kind := .clip char (some _), transform := _ } : Node) = b
        at hfit ⊢
      have hbg : b.animator? = some (r.arena.spawn t h (d + 1)).1 := hb ▸ rfl
      obtain ⟨hstart, howner⟩ := start_settles hl hx hr hd object (hb ▸ hnew) (hb ▸ hdecl) hbg
        (hb ▸ rfl) hroom
      obtain ⟨hclip, hconf, -⟩ := hp.plays (hstart.linked.clip hbg) hfit
      have hhead := hp.head (r.arena.spawn t h (d + 1)).1 b (r.start t h (d + 1) object char)
      obtain ⟨-, hsame⟩ := hstart.linked.played hbg hhead hclip hconf
      refine ⟨_, hsame.trans howner, ?_⟩
      simp only [Seat.fresh, hr, Option.isSome_some, if_true]
      refine List.rel_append (hstay _) (.cons ⟨_, List.mem_cons_self, ?_, ?_⟩ .nil)
      · rw [(Node.head_eq_iff.mp hhead).1, ← hb]
      · exact (Node.animator?_of_head hhead).trans hbg
  · have hr : ∀ t, s.resolve char ≠ some (.timeline t) := fun t ht => hr ⟨t, ht⟩
    rw [(enter_of_still hr object mat).1, Seat.fresh_of_still hr]
    exact ⟨x.children, hx, hstay _⟩

theorem retireAll_owner (removed kept : List Node)
    (hl : Linked s main r.arena parent d h (removed ++ kept)) (hx : r.arena.get? h = some x) :
    ((hosted removed).foldl (Run.retire · .removed) r).arena.get? h =
      some { x with children := x.children.filter (· ∉ hosted removed) } := by
  induction removed generalizing r x with
  | nil => simpa [hosted] using hx
  | cons c removed ih =>
    rw [Node.hosted_cons]
    cases hg : c.animator? with
    | none => exact ih (hl.tail_of_bare hg).linked hx
    | some g =>
      have hfirst := (hl.retire hg).linked
      have howner := hl.retire_owner hg hx
      rw [← Run.arena_retire r .removed g] at hfirst howner
      have hrest := ih hfirst howner
      rw [List.filter_filter] at hrest
      simpa [not_or, Bool.and_comm] using hrest

theorem remove_hosts (hl : Linked s main r.arena parent d h n.children)
    (hx : r.arena.get? h = some x) (object : ObjectId)
    (hhosts : List.Forall₂ (Hosts n.children) x.children ids) :
    ∃ l, ((Command.remove object).settle s p h n r).arena.get? h = some { x with children := l } ∧
      List.Forall₂ (Hosts (n.children.filter (·.id ≠ object))) l (ids.filter (· ≠ object)) := by
  have hlinked := (hl.settles_of_split object).linked
  refine ⟨_, retireAll_owner _ _ hlinked hx, ?_⟩
  have hremoved : ∀ c ∈ n.children, ∀ g, c.animator? = some g → c.id = object →
      g ∈ hosted (n.children.filter (·.id = object)) := fun c hc g hg hid =>
    Node.mem_hosted.mpr ⟨c, List.mem_filter.mpr ⟨hc, decide_eq_true hid⟩, hg⟩
  have hfilter := List.rel_filter (p := fun g => decide
    (g ∉ hosted (n.children.filter (·.id = object)))) (q := fun id => decide (id ≠ object))
    (fun {g id} hg => ?_) hhosts
  · refine forall₂_imp_of_mem hfilter fun g hin id hg => ?_
    have hout := of_decide_eq_true (List.mem_filter.mp hin).2
    refine hg.mono fun c hc hcg => ⟨c, List.mem_filter.mpr ⟨hc, decide_eq_true ?_⟩, rfl, rfl⟩
    exact fun hid => hout (hremoved c hc g hcg hid)
  · obtain ⟨c, hc, rfl, hcg⟩ := hg
    simp only [decide_eq_true_iff]
    constructor
    · exact fun hout hid => hout (hremoved c hc g hcg hid)
    · intro hid hin
      have hkept : g ∈ hosted (n.children.filter (·.id ≠ object)) :=
        Node.mem_hosted.mpr ⟨c, List.mem_filter.mpr ⟨hc, decide_eq_true hid⟩, hcg⟩
      exact hlinked.disjoint ((Node.hosted_sublist_carriedAll _).subset hin)
        ((Node.hosted_sublist_carriedAll _).subset hkept)

/-- A command keeps the list of the animator and the order of the scene abreast. -/
theorem settle_hosts (hp : p.Links s main) (hl : Linked s main r.arena parent d h n.children)
    (hx : r.arena.get? h = some x) {c : Command}
    (hnew : ∀ id, c.placed? = some id → id ∉ n.childIds)
    (hdecl : ∀ id, c.placed? = some id → x.timeline.Declares id)
    (hde : d + e = s.options.maxNestingDepth) (hfit : (c.settle s p h n r).arena.Fits)
    (hhosts : List.Forall₂ (Hosts n.children) x.children ids) :
    ∃ l, (c.settle s p h n r).arena.get? h = some { x with children := l } ∧
      List.Forall₂
        (Hosts (c.arrange Command.nodes (fun x y m => (Command.enter s p h x y m r).1) n.children)) l
        (c.playing s.resolve e ids) := by
  have hstay : c.placed? = none → c.removed? = none → List.Forall₂
      (Hosts (c.arrange Command.nodes (fun x y m => (Command.enter s p h x y m r).1) n.children))
      x.children ids := fun hp hr =>
    hhosts.imp fun _ _ hg => hg.of_core (Command.arrange_core_perm hp hr).symm
  cases c with
  | place char object before mat =>
    obtain ⟨l, howner, hl⟩ := enter_hosts hp hl hx (hnew object rfl) (hdecl object rfl) hde hfit hhosts
    refine ⟨l, howner, hl.imp fun _ _ hg => hg.of_core (List.Perm.map _ ?_)⟩
    exact (Siblings.insertBefore_perm Node.id _ before n.children).symm
  | remove object => exact remove_hosts hl hx object hhosts
  | _ => exact ⟨x.children, hx, hstay rfl rfl⟩

theorem executeAll_hosts (hp : p.Links s main) (cmds : List Command)
    (hl : Linked s main r.arena parent d h n.children) (hx : r.arena.get? h = some x)
    (hnew : Command.Fresh n.childIds cmds)
    (hdecl : ∀ c ∈ cmds, ∀ id, c.placed? = some id → x.timeline.Declares id)
    (hde : d + e = s.options.maxNestingDepth)
    (hfit : (Command.executeAll s p h cmds n r).2.arena.Fits)
    (hhosts : List.Forall₂ (Hosts n.children) x.children ids) :
    ∃ l, (Command.executeAll s p h cmds n r).2.arena.get? h = some { x with children := l } ∧
      List.Forall₂ (Hosts (Command.executeAll s p h cmds n r).1.children) l
        (Command.playingAll s.resolve e cmds ids) := by
  induction cmds generalizing n r x ids with
  | nil => exact ⟨x.children, hx, hhosts⟩
  | cons c cmds ih =>
    rw [Command.executeAll_cons] at hfit ⊢
    have hroom := hfit.mono (executeAll_grows hp.grows h cmds _ _)
    have hdeclc := hdecl c List.mem_cons_self
    obtain ⟨hfirst, -⟩ := settle_settles hp hl hx hnew.1 hdeclc hroom
    obtain ⟨l, howner, hhosts'⟩ := settle_hosts hp hl hx hnew.1 hdeclc hde hroom hhosts
    have hnew' := hnew.2
    rw [← childIds_arrange (s := s) hp.head h c n r] at hnew'
    exact ih (x := { x with children := l }) hfirst.linked howner hnew'
      (fun c' hc' => hdecl c' (List.mem_cons_of_mem _ hc')) hfit hhosts'

/-- Nested plays leave the clips where they are. -/
theorem playChildren_hosts (hp : p.KeepsHead) (gs : List Handle) {id : ObjectId}
    (hg : Hosts n.children g id) : Hosts (playChildren s p gs n r).1.children g id := by
  refine hg.mono fun c hc _ => ?_
  have hheads := playChildren_heads (s := s) hp gs n r
  have hin : c.head ∈ (playChildren s p gs n r).1.children.map Node.head := by
    rw [hheads]
    exact List.mem_map_of_mem hc
  obtain ⟨c', hc', hhead⟩ := List.mem_map.mp hin
  exact ⟨c', hc', (Node.head_eq_iff.mp hhead).1, Node.animator?_of_head hhead⟩

end SceneReel
