import SceneReel.Proofs.Playback.Driven
import SceneReel.Proofs.Playback.Players

/-!
A tree linked with a well-formed arena stays so under each change that playback makes: a child leaves and
its animator retires, a child enters, a clip starts, a clip has played. Nothing outside is touched.
-/
namespace SceneReel

open Node (hosted carriedAll)

/-- Between two arenas nothing changed but the animators `hs`, which became the animators `hs'`. -/
structure Confined (a : Arena) (hs : List Handle) (a' : Arena) (hs' : List Handle) : Prop where
  kept : ∀ {g x}, a.get? g = some x → g ∉ hs → a'.get? g = some x ∧ g ∉ hs'
  origin : ∀ {g x}, a'.get? g = some x → g ∈ hs' ∨ a.get? g = some x ∧ g ∉ hs

namespace Confined

variable {a a' a'' : Arena} {hs hs' hs'' ks ks' : List Handle}

theorem refl (a : Arena) (hs : List Handle) : Confined a hs a hs where
  kept hx hg := ⟨hx, hg⟩
  origin {g _} hx := by
    by_cases hg : g ∈ hs
    · exact .inl hg
    · exact .inr ⟨hx, hg⟩

theorem trans (h : Confined a hs a' hs') (h' : Confined a' hs' a'' hs'') :
    Confined a hs a'' hs'' where
  kept hx hg := by
    obtain ⟨hx, hg⟩ := h.kept hx hg
    exact h'.kept hx hg
  origin hx := by
    rcases h'.origin hx with hg | ⟨hx, hg⟩
    · exact .inl hg
    · exact .inr ((h.origin hx).resolve_left hg)

theorem congr (h : Confined a hs a' hs') (hk : ∀ g, g ∈ hs ↔ g ∈ ks)
    (hk' : ∀ g, g ∈ hs' ↔ g ∈ ks') : Confined a ks a' ks' where
  kept {g _} hx hg := by
    rw [← hk] at hg
    rw [← hk']
    exact h.kept hx hg
  origin {g _} hx := by
    rw [← hk, ← hk']
    exact h.origin hx

/-- Animators that stay as they are may be counted in, on both sides. -/
theorem append_right (h : Confined a hs a' hs') (ks : List Handle) :
    Confined a (hs ++ ks) a' (hs' ++ ks) where
  kept {g x} hx hg := by
    rw [List.mem_append, not_or] at hg ⊢
    obtain ⟨hx, hg'⟩ := h.kept hx hg.1
    exact ⟨hx, hg', hg.2⟩
  origin {g x} hx := by
    rw [List.mem_append, List.mem_append, not_or]
    rcases h.origin hx with hg | ⟨hx, hg⟩
    · exact .inl (.inl hg)
    · by_cases hk : g ∈ ks
      · exact .inl (.inr hk)
      · exact .inr ⟨hx, hg, hk⟩

theorem modify (a : Arena) (h : Handle) (f : Animation → Animation) :
    Confined a [h] (a.modify h f) [h] := by
  refine ⟨fun {k x} hx hk => ⟨?_, hk⟩, fun {k x} hx => ?_⟩
  · rw [Arena.get?_modify, if_neg fun he => hk (List.mem_singleton.mpr he), hx]
  · by_cases hk : k = h
    · exact .inl (List.mem_singleton.mpr hk)
    · rw [Arena.get?_modify, if_neg hk] at hx
      exact .inr ⟨hx, fun hin => hk (List.mem_singleton.mp hin)⟩

end Confined

/-- A well-formed arena whose animator `h` drives a node with the children `cs`, no two animators alike. -/
structure Linked (s : Setting) (main : Timeline) (a : Arena) (parent : Option Handle) (d : Nat)
    (h : Handle) (cs : List Node) : Prop where
  wellFormed : a.WellFormed
  driven : Driven s main a parent d h cs
  nodup : (h :: carriedAll cs).Nodup

/-- From one linked state to another with the same driving animator, of which only the list of children
changes. -/
structure Settles (s : Setting) (main : Timeline) (parent : Option Handle) (d : Nat) (h : Handle)
    (a : Arena) (cs : List Node) (a' : Arena) (cs' : List Node) : Prop where
  linked : Linked s main a' parent d h cs'
  confined : Confined a (h :: carriedAll cs) a' (h :: carriedAll cs')
  owner : ∀ {x}, a.get? h = some x → ∃ l, a'.get? h = some { x with children := l }

theorem Settles.trans {s : Setting} {main : Timeline} {parent : Option Handle} {d : Nat} {h : Handle}
    {a a' a'' : Arena} {cs cs' cs'' : List Node} (hs : Settles s main parent d h a cs a' cs')
    (hs' : Settles s main parent d h a' cs' a'' cs'') : Settles s main parent d h a cs a'' cs'' where
  linked := hs'.linked
  confined := hs.confined.trans hs'.confined
  owner hx := by
    obtain ⟨_, hx'⟩ := hs.owner hx
    obtain ⟨l, hl⟩ := hs'.owner hx'
    exact ⟨l, hl⟩

namespace Linked

variable {s : Setting} {main : Timeline} {a a' : Arena} {parent : Option Handle} {d : Nat}
  {g h child : Handle} {c c' : Node} {cs cs' : List Node} {x : Animation}

theorem of_core (hl : Linked s main a parent d h cs)
    (hcore : (cs.map Node.core).Perm (cs'.map Node.core)) : Linked s main a parent d h cs' :=
  ⟨hl.wellFormed, hl.driven.of_core hcore,
    ((Node.carriedAll_perm_of_core hcore).cons h).nodup_iff.mp hl.nodup⟩

theorem settles_of_core (hl : Linked s main a parent d h cs)
    (hcore : (cs.map Node.core).Perm (cs'.map Node.core)) :
    Settles s main parent d h a cs a cs' where
  linked := hl.of_core hcore
  confined := (Confined.refl a _).congr (fun _ => .rfl)
    fun _ => ((Node.carriedAll_perm_of_core hcore).cons h).mem_iff
  owner {x} hx := ⟨x.children, hx⟩

theorem settles_of_perm (hl : Linked s main a parent d h cs) (hp : cs.Perm cs') :
    Settles s main parent d h a cs a cs' :=
  hl.settles_of_core (hp.map Node.core)

/-- The children of one object in front of the others. -/
theorem settles_of_split (hl : Linked s main a parent d h cs) (object : ObjectId) :
    Settles s main parent d h a cs a (cs.filter (·.id = object) ++ cs.filter (·.id ≠ object)) := by
  refine hl.settles_of_perm ?_
  simpa using (List.filter_append_perm (·.id = object) cs).symm

theorem disjoint (hl : Linked s main a parent d h (cs ++ cs')) (hg : g ∈ carriedAll cs) :
    g ∉ carriedAll cs' := by
  have hnodup := (List.nodup_cons.mp hl.nodup).2
  rw [Node.carriedAll_append] at hnodup
  exact fun hg' => (List.nodup_append.mp hnodup).2.2 g hg g hg' rfl

theorem clip (hl : Linked s main a parent d h (c :: cs)) (hg : c.animator? = some g) :
    Linked s main a (some h) (d + 1) g c.children := by
  refine ⟨hl.wellFormed, ?_, ?_⟩
  · obtain ⟨-, -, -, -, -, -, -, -, -, clips⟩ := hl.driven
    exact clips c List.mem_cons_self g hg
  · have hnodup := hl.nodup
    rw [Node.carriedAll_cons, Node.carried_eq, hg] at hnodup
    exact hnodup.sublist ((List.sublist_append_left _ _).trans (List.sublist_cons_self _ _))

/-- The animator of a node is none of those below it, and those of siblings are apart. -/
theorem nodup_cons (hl : Linked s main a parent d h (c :: cs)) (hg : c.animator? = some g) :
    (h :: carriedAll cs).Nodup ∧ ∀ k ∈ g :: carriedAll c.children, k ∉ h :: carriedAll cs := by
  have hnodup := hl.nodup
  rw [Node.carriedAll_cons, Node.carried_eq, hg] at hnodup
  have hmid : (g :: carriedAll c.children ++ h :: carriedAll cs).Nodup :=
    (List.perm_middle.nodup_iff).mpr hnodup
  obtain ⟨-, hrest, hdisj⟩ := List.nodup_append.mp hmid
  exact ⟨hrest, fun k hk hk' => hdisj k hk k hk' rfl⟩

theorem tail_of_bare (hl : Linked s main a parent d h (c :: cs)) (hg : c.animator? = none) :
    Settles s main parent d h a (c :: cs) a cs := by
  obtain ⟨live, refers, level, within, inUse, lists, distinct, declared, bare, clips⟩ := hl.driven
  have hcarried : carriedAll (c :: cs) = carriedAll cs := by
    rw [Node.carriedAll_cons, Node.carried_eq, hg, Node.handles, (bare c List.mem_cons_self hg).1]
    rfl
  rw [Node.hosted_cons, hg, Option.toList_none, List.nil_append] at lists
  refine ⟨⟨hl.wellFormed, .intro live refers level within inUse lists
    (List.nodup_cons.mp distinct).2 (fun b hb => declared b (List.mem_cons_of_mem _ hb))
    (fun b hb => bare b (List.mem_cons_of_mem _ hb))
    (fun b hb => clips b (List.mem_cons_of_mem _ hb)), hcarried ▸ hl.nodup⟩,
    hcarried ▸ .refl a _, fun {x} hx => ⟨x.children, hx⟩⟩

theorem lists_tail (hl : Linked s main a parent d h (c :: cs)) (hg : c.animator? = some g)
    (hx : x.children.Perm (hosted (c :: cs))) :
    (x.children.filter (· ≠ g)).Perm (hosted cs) := by
  obtain ⟨-, hdisj⟩ := hl.nodup_cons hg
  have hout : g ∉ hosted cs := fun hin => hdisj g List.mem_cons_self
    (List.mem_cons_of_mem _ ((Node.hosted_sublist_carriedAll cs).subset hin))
  have hrest : (hosted cs).filter (· ≠ g) = hosted cs := by
    rw [List.filter_eq_self]
    intro k hk
    have : k ≠ g := fun he => hout (he ▸ hk)
    simpa using this
  have hfilter := hx.filter (· ≠ g)
  rw [Node.hosted_cons, hg, Option.toList_some, List.filter_append, hrest] at hfilter
  simpa using hfilter

/-- Retiring a clip ends the animators that it carries, and changes no other than the driving one. -/
theorem retire_confined (hl : Linked s main a parent d h (c :: cs)) (hg : c.animator? = some g) :
    Confined a (h :: c.carried) (a.retire g).2 [h] := by
  have hclip := (hl.clip hg).driven
  obtain ⟨y, hy, hyparent, -⟩ := hclip.get?
  have hget := Arena.get?_retire hl.wellFormed.forest.kinship hy
  have hcarried : c.carried = g :: carriedAll c.children := by
    rw [Node.carried_eq, hg]
    rfl
  rw [hcarried]
  have hstay : ∀ k, k ∉ h :: g :: carriedAll c.children → (a.retire g).2.get? k = a.get? k := by
    intro k hk
    rw [List.mem_cons, not_or] at hk
    rw [(hget k).2 fun hd => hk.2 (hclip.descends_iff.mp hd), hyparent, if_neg]
    exact fun he => hk.1 (Option.some.inj he).symm
  refine ⟨fun {k z} hz hk => ⟨(hstay k hk).trans hz, fun hin => hk ?_⟩, fun {k z} hz => ?_⟩
  · rw [List.mem_singleton.mp hin]
    exact List.mem_cons_self
  · by_cases hk : k ∈ h :: g :: carriedAll c.children
    · rcases List.mem_cons.mp hk with rfl | hk
      · exact .inl List.mem_cons_self
      · rw [(hget k).1 (hclip.descends_iff.mpr hk)] at hz
        cases hz
    · exact .inr ⟨(hstay k hk).symm.trans hz, hk⟩

theorem not_mem_clip (hl : Linked s main a parent d h (c :: cs)) (hg : c.animator? = some g) :
    h ∉ g :: carriedAll c.children := by
  obtain ⟨-, hdisj⟩ := hl.nodup_cons hg
  exact fun hk => hdisj h hk List.mem_cons_self

theorem retire_owner (hl : Linked s main a parent d h (c :: cs)) (hg : c.animator? = some g)
    (hx : a.get? h = some x) :
    (a.retire g).2.get? h = some { x with children := x.children.filter (· ≠ g) } := by
  have hclip := (hl.clip hg).driven
  obtain ⟨y, hy, hyparent, -⟩ := hclip.get?
  have hout : ¬ Arena.Descends a.slots g h := fun hd => hl.not_mem_clip hg (hclip.descends_iff.mp hd)
  rw [(Arena.get?_retire hl.wellFormed.forest.kinship hy h).2 hout, hyparent, if_pos rfl, hx]
  rfl

/-- A clip leaves and its animator retires; the animators below go with it. -/
theorem retire (hl : Linked s main a parent d h (c :: cs)) (hg : c.animator? = some g) :
    Settles s main parent d h a (c :: cs) (a.retire g).2 cs := by
  obtain ⟨hnodup, hdisj⟩ := hl.nodup_cons hg
  have hclip := (hl.clip hg).driven
  have hconf := hl.retire_confined hg
  refine ⟨⟨hl.wellFormed.retire g, ?_, hnodup⟩, hconf.append_right (carriedAll cs),
    fun hx => ⟨_, hl.retire_owner hg hx⟩⟩
  obtain ⟨live, refers, level, within, inUse, lists, distinct, declared, bare, clips⟩ := hl.driven
  have howner := hl.retire_owner hg live
  refine .intro howner refers level within inUse (hl.lists_tail hg lists)
    (List.nodup_cons.mp distinct).2 (fun b hb => declared b (List.mem_cons_of_mem _ hb))
    (fun b hb => bare b (List.mem_cons_of_mem _ hb))
    (fun b hb k hk => (clips b (List.mem_cons_of_mem _ hb) k hk).congr fun m hm => ?_)
  have hm' : m ∈ carriedAll cs := Node.mem_carriedAll_of_clip hb hk hm
  obtain ⟨z, hz⟩ := hl.driven.live_of_mem (List.mem_cons_of_mem h (List.mem_append_right c.carried hm'))
  refine ((hconf.kept hz ?_).1).trans hz.symm
  rw [Node.carried_eq, hg, List.mem_cons, not_or]
  refine ⟨?_, fun hin => hdisj m hin (List.mem_cons_of_mem _ hm')⟩
  rintro rfl
  exact (List.nodup_cons.mp hnodup).1 hm'

theorem cons_bare (hl : Linked s main a parent d h cs) (hx : a.get? h = some x)
    (hnew : c.id ∉ cs.map Node.id) (hdecl : x.timeline.Declares c.id) (hg : c.animator? = none)
    (hbare : c.children = [] ∧ ∀ char, c.kind = .clip char none → d = s.options.maxNestingDepth) :
    Settles s main parent d h a cs a (c :: cs) := by
  have hcarried : carriedAll (c :: cs) = carriedAll cs := by
    rw [Node.carriedAll_cons, Node.carried_eq, hg, Node.handles, hbare.1]
    rfl
  obtain ⟨live, refers, level, within, inUse, lists, distinct, declared, bare, clips⟩ := hl.driven
  rw [live] at hx
  cases hx
  refine ⟨⟨hl.wellFormed, .intro live refers level within inUse ?_
    (List.nodup_cons.mpr ⟨hnew, distinct⟩) ?_ ?_ ?_, hcarried ▸ hl.nodup⟩,
    hcarried ▸ .refl a _, fun {x} hx => ⟨x.children, hx⟩⟩
  · rw [Node.hosted_cons, hg]
    exact lists
  · exact List.forall_mem_cons.mpr ⟨hdecl, declared⟩
  · exact List.forall_mem_cons.mpr ⟨fun _ => hbare, bare⟩
  · refine List.forall_mem_cons.mpr ⟨fun k hk => ?_, clips⟩
    rw [hg] at hk
    cases hk

theorem spawn_confined {t : Timeline} (hl : Linked s main a parent d h cs)
    (hfit : (a.spawn t h (d + 1)).2.Fits) :
    Confined a [h] (a.spawn t h (d + 1)).2 [h, (a.spawn t h (d + 1)).1] := by
  obtain ⟨x, hx, -, -⟩ := hl.driven.get?
  obtain ⟨-, hget⟩ := hl.wellFormed.get?_spawn hx hfit
  have hlive := fun {k z} (hz : a.get? k = some z) => hl.wellFormed.stored.get?_spawn_of_live hfit hz
  generalize (a.spawn t h (d + 1)).1 = child at hget hlive ⊢
  refine ⟨fun {k y} hy hk => ?_, fun {k y} hy => ?_⟩
  · have hkh : k ≠ h := fun he => hk (List.mem_singleton.mpr he)
    obtain ⟨hkc, hy'⟩ := hlive hy
    rw [if_neg hkh, List.append_nil] at hy'
    exact ⟨hy', by simp [hkh, hkc]⟩
  · rw [hget] at hy
    split at hy
    · exact .inl (by simp [*])
    · split at hy
      · exact .inl (by simp [*])
      · exact .inr ⟨hy, by simp [*]⟩

theorem spawn {t : Timeline} {char : CharId} (hl : Linked s main a parent d h cs)
    (hx : a.get? h = some x) (hnew : c.id ∉ cs.map Node.id) (hdecl : x.timeline.Declares c.id)
    (hd : d < s.options.maxNestingDepth) (ht : s.resolve char = some (.timeline t))
    (hfit : (a.spawn t h (d + 1)).2.Fits) (hg : c.animator? = some (a.spawn t h (d + 1)).1)
    (hbare : c.children = []) :
    Settles s main parent d h a cs (a.spawn t h (d + 1)).2 (c :: cs) := by
  have hconf := hl.spawn_confined hfit
  obtain ⟨live, refers, level, within, inUse, lists, distinct, declared, bare, clips⟩ := hl.driven
  rw [live] at hx
  cases hx
  obtain ⟨hfresh, hget⟩ := hl.wellFormed.get?_spawn live hfit
  have hwf : (a.spawn t h (d + 1)).2.WellFormed := by
    rw [← level] at hfit ⊢
    exact hl.wellFormed.spawn live hfit
  generalize (a.spawn t h (d + 1)).1 = child at hfresh hget hg hconf
  generalize (a.spawn t h (d + 1)).2 = a' at hfit hget hwf hconf ⊢
  have hcarried : carriedAll (c :: cs) = child :: carriedAll cs := by
    rw [Node.carriedAll_cons, Node.carried_eq, hg, Node.handles, hbare]
    rfl
  -- the new handle was in use nowhere
  have hhout : child ∉ h :: carriedAll cs := by
    intro hin
    obtain ⟨y, hy⟩ := hl.driven.live_of_mem hin
    rw [hfresh] at hy
    cases hy
  have hnodup : (h :: carriedAll (c :: cs)).Nodup := by
    rw [hcarried]
    exact (List.Perm.swap child h _).nodup_iff.mpr (List.nodup_cons.mpr ⟨hhout, hl.nodup⟩)
  have hlive : a'.get? h = some { x with children := x.children ++ [child] } := by
    have hne : h ≠ child := fun he => hhout (he ▸ List.mem_cons_self)
    rw [hget, if_neg hne, if_pos rfl]
  refine ⟨⟨hwf, ?_, hnodup⟩, ?_, fun hx => ?_⟩
  · refine .intro hlive refers level within inUse ?_
      (List.nodup_cons.mpr ⟨hnew, distinct⟩) ?_ ?_ ?_
    · rw [Node.hosted_cons, hg]
      exact (lists.append_right [child]).trans List.perm_append_comm
    · exact List.forall_mem_cons.mpr ⟨hdecl, declared⟩
    · refine List.forall_mem_cons.mpr ⟨fun hk => ?_, bare⟩
      rw [hg] at hk
      cases hk
    · refine List.forall_mem_cons.mpr ⟨fun k hk => ?_, fun b hb k hk => ?_⟩
      · rw [hg] at hk
        cases hk
        rw [hbare]
        exact .intro (by rw [hget, if_pos rfl]) rfl rfl hd (.inr ⟨char, ht⟩) (.refl _)
          List.nodup_nil (by simp) (by simp) (by simp)
      · refine (clips b hb k hk).congr fun m hm => ?_
        have hm' : m ∈ carriedAll cs := Node.mem_carriedAll_of_clip hb hk hm
        obtain ⟨y, hy⟩ := hl.driven.live_of_mem (List.mem_cons_of_mem h hm')
        refine ((hconf.kept hy ?_).1).trans hy.symm
        rw [List.mem_singleton]
        rintro rfl
        exact (List.nodup_cons.mp hl.nodup).1 hm'
  · rw [hcarried]
    exact hconf.append_right (carriedAll cs)
  · rw [live] at hx
    cases hx
    exact ⟨_, hlive⟩

/-- A clip has played: it is linked again, and what else there is has not changed. -/
theorem played (hl : Linked s main a parent d h (c :: cs)) (hg : c.animator? = some g)
    (hhead : c'.head = c.head) (hclip : Linked s main a' (some h) (d + 1) g c'.children)
    (hconf : Confined a (g :: carriedAll c.children) a' (g :: carriedAll c'.children)) :
    Settles s main parent d h a (c :: cs) a' (c' :: cs) ∧ a'.get? h = a.get? h := by
  obtain ⟨live, refers, level, within, inUse, lists, distinct, declared, bare, clips⟩ := hl.driven
  obtain ⟨hid, hkind, -, -⟩ := Node.head_eq_iff.mp hhead
  have hg' : c'.animator? = some g := (Node.animator?_of_head hhead).trans hg
  obtain ⟨hrest, hdisj⟩ := hl.nodup_cons hg
  -- the other animators are live and outside of the clip, so they stay as they are
  have hstay : ∀ k ∈ h :: carriedAll cs, a'.get? k = a.get? k ∧
      k ∉ g :: carriedAll c'.children := by
    intro k hk
    have hin : k ∈ h :: carriedAll (c :: cs) := by
      rcases List.mem_cons.mp hk with rfl | hk
      · exact List.mem_cons_self
      · exact List.mem_cons_of_mem _ (List.mem_append_right _ hk)
    obtain ⟨y, hy⟩ := hl.driven.live_of_mem hin
    obtain ⟨hy', hk'⟩ := hconf.kept hy fun hc => hdisj k hc hk
    exact ⟨hy'.trans hy.symm, hk'⟩
  have hsplit : ∀ b : Node, b.animator? = some g → ∀ k, k ∈ h :: carriedAll (b :: cs) ↔
      k ∈ (g :: carriedAll b.children) ++ (h :: carriedAll cs) := by
    intro b hb k
    rw [Node.carriedAll_cons, Node.carried_eq, hb, Node.handles]
    simp only [Option.toList_some, List.singleton_append, List.mem_cons, List.mem_append]
    tauto
  have hh := (hstay h List.mem_cons_self).1
  refine ⟨⟨⟨hclip.wellFormed, ?_, ?_⟩, ?_, fun {x} hx => ⟨x.children, hh.trans hx⟩⟩, hh⟩
  · refine .intro (hh.trans live) refers level within inUse ?_ ?_ ?_
      ?_ ?_
    · rw [Node.hosted_cons, hg']
      rw [Node.hosted_cons, hg] at lists
      exact lists
    · simpa [hid] using distinct
    · refine List.forall_mem_cons.mpr ⟨?_, (List.forall_mem_cons.mp declared).2⟩
      exact hid ▸ (List.forall_mem_cons.mp declared).1
    · refine List.forall_mem_cons.mpr ⟨fun hk => ?_, (List.forall_mem_cons.mp bare).2⟩
      rw [hg'] at hk
      cases hk
    · refine List.forall_mem_cons.mpr ⟨fun k hk => ?_, fun b hb k hk => ?_⟩
      · rw [hg'] at hk
        cases hk
        exact hclip.driven
      · refine (clips b (List.mem_cons_of_mem _ hb) k hk).congr fun m hm => (hstay m ?_).1
        exact List.mem_cons_of_mem _ (Node.mem_carriedAll_of_clip hb hk hm)
  · rw [Node.carriedAll_cons, Node.carried_eq, hg', Node.handles]
    have hmid : (g :: carriedAll c'.children ++ h :: carriedAll cs).Nodup :=
      List.nodup_append.mpr ⟨hclip.nodup, hrest, fun k hk m hm he => (hstay m hm).2 (he ▸ hk)⟩
    exact List.perm_middle.nodup_iff.mp hmid
  · exact (hconf.append_right (h :: carriedAll cs)).congr (fun k => (hsplit c hg k).symm)
      fun k => (hsplit c' hg' k).symm

theorem modify (hl : Linked s main a parent d h cs) (f : Animation → Animation)
    (hf : ∀ x, ∃ k, f x = { x with cursor := k }) :
    Linked s main (a.modify h f) parent d h cs := by
  refine ⟨hl.wellFormed.modify h fun x => ?_, ?_, hl.nodup⟩
  · obtain ⟨k, hk⟩ := hf x
    rw [hk]
    exact ⟨rfl, rfl, rfl⟩
  · obtain ⟨live, refers, level, within, inUse, lists, distinct, declared, bare, clips⟩ := hl.driven
    rename_i x
    obtain ⟨k, hk⟩ := hf x
    have hlive : (a.modify h f).get? h = some { x with cursor := k } := by
      rw [Arena.get?_modify, if_pos rfl, live, Option.map_some, hk]
    refine .intro hlive refers level within inUse lists distinct declared bare
      fun c hc g hg => (clips c hc g hg).congr fun k hk => ?_
    rw [Arena.get?_modify, if_neg]
    rintro rfl
    exact (List.nodup_cons.mp hl.nodup).1 (Node.mem_carriedAll_of_clip hc hg hk)

theorem seek {r : Run} (hl : Linked s main r.arena parent d h cs) (number : Nat) :
    Linked s main (r.seek h number).arena parent d h cs :=
  hl.modify _ fun _ => ⟨number, rfl⟩

theorem advance {r : Run} (hl : Linked s main r.arena parent d h cs) :
    Linked s main (r.advance h).arena parent d h cs :=
  hl.modify _ fun x => ⟨x.cursor + 1, rfl⟩

end Linked

end SceneReel
