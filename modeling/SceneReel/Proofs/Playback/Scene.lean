import SceneReel.Proofs.Playback.Arrange

/-!
Scenes: playback without an arena. A scene knows of each child how it is shown and, if it is a clip that
plays, its timeline and for how many ticks it has played; what is below such a clip is the scene of that
timeline after so many ticks. A scene at the level `e` may nest so many levels deeper.
-/
namespace SceneReel

open SceneReel.Geometry

/-- What a node shows; of its animator no more than whether there is one. -/
def NodeKind.outline : NodeKind → NodeKind
  | .clip char animator => .clip char (animator.map fun _ => ⟨0, 0⟩)
  | .container => .container
  | .shape char => .shape char
  | .bitmap char => .bitmap char
  | .text char => .text char
  | .placeholder char => .placeholder char

namespace Node

def outline (n : Node) : Node :=
  { n with kind := n.kind.outline, children := [] }

mutual

/-- A tree as it is shown: of the animators no more than whether there are any. -/
def erase : Node → Node
  | ⟨id, kind, transform, visible, children⟩ =>
    ⟨id, kind.outline, transform, visible, eraseAll children⟩

def eraseAll : List Node → List Node
  | [] => []
  | c :: cs => erase c :: eraseAll cs

end

theorem erase_eq (n : Node) : n.erase = { n.outline with children := eraseAll n.children } := by
  cases n
  rfl

theorem outline_of_head {n m : Node} (h : n.head = m.head) : n.outline = m.outline := by
  obtain ⟨hid, hkind, htransform, hvisible⟩ := head_eq_iff.mp h
  simp [outline, hid, hkind, htransform, hvisible]

end Node

structure Seat where
  outline : Node
  /-- The timeline of a clip that plays, and the number of its ticks. -/
  clip? : Option (Timeline × Nat) := none

namespace Seat

def id (s : Seat) : ObjectId :=
  s.outline.id

/-- A clip has played once more. -/
def older (s : Seat) : Seat :=
  { s with clip? := s.clip?.map fun (t, j) => (t, j + 1) }

/-- The child that a placement adds at a level; a clip plays at once, unless there is no level left. -/
def fresh (resolve : CharId → Option Resolved) (e : Nat) (char : CharId) (object : ObjectId)
    (m : Matrix) : Seat :=
  match resolve char, e with
  | some (.timeline t), _ + 1 =>
    { outline := { id := object, kind := .clip char (some ⟨0, 0⟩), transform := m.decompose }
      clip? := some (t, 1) }
  | resolved, _ =>
    { outline := { id := object, kind := .ofResolved char resolved, transform := m.decompose } }

theorem fresh_of_still {resolve : CharId → Option Resolved} {char : CharId}
    (hr : ∀ t, resolve char ≠ some (.timeline t)) (e : Nat) (object : ObjectId) (m : Matrix) :
    (fresh resolve e char object m).clip? = none := by
  unfold fresh
  split
  · exact absurd ‹_› (hr _)
  · rfl

end Seat

namespace Command

def seats : Staging Seat where
  id := Seat.id
  move m s := { s with outline := { s.outline with transform := m.decompose } }
  setVisible visible s := { s with outline := { s.outline with visible } }

/-- The clips that play after a command, in the order in which they started. -/
def playing (resolve : CharId → Option Resolved) (e : Nat) (ids : List ObjectId) :
    Command → List ObjectId
  | .place char object _ m =>
    if (Seat.fresh resolve e char object m).clip?.isSome then ids ++ [object] else ids
  | .remove object => ids.filter (· ≠ object)
  | _ => ids

def playingAll (resolve : CharId → Option Resolved) (e : Nat) (cs : List Command)
    (ids : List ObjectId) : List ObjectId :=
  cs.foldl (playing resolve e) ids

end Command

/-- What a timeline shows, and the frame that it plays next. -/
structure Scene where
  cursor : Nat := 0
  seats : List Seat := []
  /-- The clips that play, in the order in which they started. -/
  order : List ObjectId := []

namespace Scene

def looped (sc : Scene) (t : Timeline) : Bool :=
  sc.cursor == t.frameCount

def number (sc : Scene) (t : Timeline) : Nat :=
  if sc.looped t then 0 else sc.cursor

def commands (sc : Scene) (t : Timeline) : List Command :=
  match t.frames[sc.number t]? with
  | none => []
  | some frame => (Plan.ofFrame (sc.seats.map Seat.id) frame (sc.looped t)).commands

/-- The scene after the next tick, the clips having played before the frame. -/
def tick (resolve : CharId → Option Resolved) (e : Nat) (t : Timeline) (sc : Scene) : Scene :=
  if t.frameCount = 0 then sc
  else
    { cursor := if (t.frames[sc.number t]?).isSome then sc.number t + 1 else sc.number t
      seats := Command.arrangeAll Command.seats (Seat.fresh resolve e) (sc.commands t)
        (sc.seats.map Seat.older)
      order := Command.playingAll resolve e (sc.commands t) sc.order }

def after (resolve : CharId → Option Resolved) (e : Nat) (t : Timeline) : Nat → Scene
  | 0 => {}
  | j + 1 => (after resolve e t j).tick resolve e t

end Scene

/-- An animator belongs to the node of an object. -/
def Hosts (cs : List Node) (g : Handle) (id : ObjectId) : Prop :=
  ∃ c ∈ cs, c.id = id ∧ c.animator? = some g

theorem Hosts.mono {cs cs' : List Node} {g : Handle} {id : ObjectId} (hg : Hosts cs g id)
    (hsub : ∀ c ∈ cs, c.animator? = some g →
      ∃ c' ∈ cs', c'.id = c.id ∧ c'.animator? = c.animator?) : Hosts cs' g id := by
  obtain ⟨c, hc, hid, hcg⟩ := hg
  obtain ⟨c', hc', hid', hcg'⟩ := hsub c hc hcg
  exact ⟨c', hc', hid'.trans hid, hcg'.trans hcg⟩

/-- A node stands where a scene has a child: it looks the same, and below it is what a clip shows. -/
def Stands (R : Timeline → Nat → Handle → List Node → Prop) (c : Node) (s : Seat) : Prop :=
  c.outline = s.outline ∧
    match s.clip? with
    | none => c.animator? = none ∧ c.children = []
    | some (t, j) => ∃ g, c.animator? = some g ∧ R t j g c.children

section Relation

variable (resolve : CharId → Option Resolved) (a : Arena) (β : Handle → Nat) (σ : Nat)

/-- The animator `h`, seen at the tick `σ`, has played the timeline `t` for `j` ticks, as the nodes show.
-/
def Shows : Nat → Timeline → Nat → Handle → List Node → Prop
  | 0, t, j, h, cs =>
    (∃ x, a.get? h = some x ∧ x.timeline = t ∧ x.cursor = (Scene.after resolve 0 t j).cursor ∧
      List.Forall₂ (Hosts cs) x.children (Scene.after resolve 0 t j).order) ∧
      σ = β h + j ∧
      List.Forall₂ (Stands fun _ _ _ _ => False) cs (Scene.after resolve 0 t j).seats
  | e + 1, t, j, h, cs =>
    (∃ x, a.get? h = some x ∧ x.timeline = t ∧
      x.cursor = (Scene.after resolve (e + 1) t j).cursor ∧
      List.Forall₂ (Hosts cs) x.children (Scene.after resolve (e + 1) t j).order) ∧
      σ = β h + j ∧
      List.Forall₂ (Stands (Shows e)) cs (Scene.after resolve (e + 1) t j).seats

/-- What the clips of a scene show: there are none at the last level. -/
def Under : Nat → Timeline → Nat → Handle → List Node → Prop
  | 0 => fun _ _ _ _ => False
  | e + 1 => Shows resolve a β σ e

end Relation

variable {resolve : CharId → Option Resolved} {a a' : Arena} {β β' : Handle → Nat} {σ σ' : Nat}
  {R R' : Timeline → Nat → Handle → List Node → Prop} {e : Nat} {t : Timeline} {j : Nat}
  {h h' : Handle} {c d : Node} {cs ds : List Node} {s : Seat} {ss : List Seat}

theorem shows_iff : Shows resolve a β σ e t j h cs ↔
    (∃ x, a.get? h = some x ∧ x.timeline = t ∧ x.cursor = (Scene.after resolve e t j).cursor ∧
      List.Forall₂ (Hosts cs) x.children (Scene.after resolve e t j).order) ∧
      σ = β h + j ∧
      List.Forall₂ (Stands (Under resolve a β σ e)) cs (Scene.after resolve e t j).seats := by
  cases e <;> exact Iff.rfl

theorem forall₂_imp_of_mem {α γ : Type} {P Q : α → γ → Prop} {xs : List α} {ys : List γ}
    (hp : List.Forall₂ P xs ys) (himp : ∀ x ∈ xs, ∀ y, P x y → Q x y) : List.Forall₂ Q xs ys := by
  induction hp with
  | nil => exact .nil
  | cons hxy _ ih =>
    refine .cons (himp _ List.mem_cons_self _ hxy) (ih fun x hx => himp x ?_)
    exact List.mem_cons_of_mem _ hx

theorem exists_of_forall₂ {α γ : Type} {P : α → γ → Prop} {xs : List α} {ys : List γ} {x : α}
    (hp : List.Forall₂ P xs ys) (hx : x ∈ xs) : ∃ y ∈ ys, P x y := by
  induction hp with
  | nil => cases hx
  | cons hzy _ ih =>
    rcases List.mem_cons.mp hx with rfl | hx
    · exact ⟨_, List.mem_cons_self, hzy⟩
    · obtain ⟨y, hy, hxy⟩ := ih hx
      exact ⟨y, List.mem_cons_of_mem _ hy, hxy⟩

namespace Stands

theorem id_eq (hs : Stands R c s) : c.id = s.id := by
  show c.outline.id = s.outline.id
  rw [hs.1]

theorem bare (hs : Stands R c s) (hg : c.animator? = none) : s.clip? = none ∧ c.children = [] := by
  obtain ⟨-, hclip⟩ := hs
  split at hclip
  · exact ⟨‹_›, hclip.2⟩
  · obtain ⟨g, hg', -⟩ := hclip
    rw [hg] at hg'
    cases hg'

theorem mono (hs : Stands R c s)
    (hR : ∀ t j g, c.animator? = some g → R t j g c.children → R' t j g c.children) :
    Stands R' c s := by
  obtain ⟨houtline, hclip⟩ := hs
  refine ⟨houtline, ?_⟩
  cases hc : s.clip? with
  | none =>
    rw [hc] at hclip
    exact hclip
  | some p =>
    rw [hc] at hclip
    obtain ⟨g, hg, hR'⟩ := hclip
    exact ⟨g, hg, hR _ _ g hg hR'⟩

end Stands

theorem map_id_of_stands (hs : List.Forall₂ (Stands R) cs ss) :
    ss.map Seat.id = cs.map Node.id := by
  induction hs with
  | nil => rfl
  | cons hcs _ ih => rw [List.map_cons, List.map_cons, ih, hcs.id_eq]

/-- Commands that change a node in place leave it where it stands. -/
theorem Command.respects_stands (R : Timeline → Nat → Handle → List Node → Prop) :
    Command.Respects (Stands R) Command.nodes Command.seats where
  id _ _ hs := hs.id_eq
  move m c s hs := by
    refine ⟨?_, hs.2⟩
    exact congrArg (fun n : Node => { n with transform := m.decompose }) hs.1
  setVisible b c s hs := by
    refine ⟨?_, hs.2⟩
    exact congrArg (fun n : Node => { n with visible := b }) hs.1

/-- The relation rests on the animators of the nodes alone, and on when they were born. -/
theorem Shows.congr (hs : Shows resolve a β σ e t j h cs)
    (hagree : ∀ k ∈ h :: Node.carriedAll cs, a'.get? k = a.get? k ∧ β' k = β k) :
    Shows resolve a' β' σ e t j h cs := by
  induction e generalizing t j h cs with
  | zero =>
    obtain ⟨hx, hage, hstands⟩ := hs
    obtain ⟨hlook, hborn⟩ := hagree h List.mem_cons_self
    refine ⟨?_, ?_, hstands⟩
    · rwa [hlook]
    · rwa [hborn]
  | succ e ih =>
    obtain ⟨hx, hage, hstands⟩ := hs
    obtain ⟨hlook, hborn⟩ := hagree h List.mem_cons_self
    refine ⟨?_, ?_, ?_⟩
    · rwa [hlook]
    · rwa [hborn]
    · refine forall₂_imp_of_mem hstands fun c hc s hs => ?_
      refine hs.mono fun t j g hg hshows => ih hshows fun k hk => ?_
      exact hagree k (List.mem_cons_of_mem _ (Node.mem_carriedAll_of_clip hc hg hk))

theorem Stands.congr (hs : Stands (Under resolve a β σ e) c s)
    (hagree : ∀ k ∈ c.carried, a'.get? k = a.get? k ∧ β' k = β k) :
    Stands (Under resolve a' β' σ e) c s := by
  refine hs.mono fun t j g hg hshows => ?_
  cases e with
  | zero => exact hshows
  | succ e =>
    refine Shows.congr hshows fun k hk => hagree k ?_
    rw [Node.carried_eq, hg]
    exact hk

theorem Stands.older_of_bare (hs : Stands (Under resolve a β σ e) c s) (hg : c.animator? = none) :
    Stands (Under resolve a' β' σ' e) c s.older := by
  obtain ⟨hclip, hempty⟩ := hs.bare hg
  refine ⟨hs.1, ?_⟩
  simp only [Seat.older, hclip, Option.map_none]
  exact ⟨hg, hempty⟩

/-- A clip that stands in a scene shows the scene of its own timeline, one level deeper. -/
theorem Stands.shows (hs : Stands (Under resolve a β σ e) c s) {g : Handle}
    (hg : c.animator? = some g) : ∃ t j e', s.clip? = some (t, j) ∧ e = e' + 1 ∧
      Shows resolve a β σ e' t j g c.children := by
  obtain ⟨-, hclip⟩ := hs
  split at hclip
  · rw [hg] at hclip
    cases hclip.1
  · rename_i t j hc
    obtain ⟨g', hg', hshows⟩ := hclip
    rw [hg] at hg'
    cases hg'
    cases e with
    | zero => exact absurd hshows id
    | succ e => exact ⟨t, j, e, hc, rfl, hshows⟩

theorem Shows.below (hs : Shows resolve a β σ e t j h cs) (hc : c ∈ cs) :
    (∃ g e' u k, c.animator? = some g ∧ e = e' + 1 ∧ Shows resolve a β σ e' u k g c.children ∧
      ∃ seat ∈ (Scene.after resolve e t j).seats, seat.clip? = some (u, k)) ∨
    c.animator? = none ∧ c.children = [] := by
  obtain ⟨-, -, hstands⟩ := shows_iff.mp hs
  obtain ⟨seat, hin, hseat⟩ := exists_of_forall₂ hstands hc
  cases hg : c.animator? with
  | none => exact .inr ⟨rfl, (hseat.bare hg).2⟩
  | some g =>
    obtain ⟨u, k, e', hclip, he, hshows⟩ := hseat.shows hg
    exact .inl ⟨g, e', u, k, rfl, he, hshows, seat, hin, hclip⟩

/-- Nodes that stand in one scene look the same, whatever animators play them. -/
theorem eraseAll_eq_of_stands (hR : ∀ t j g g' cs ds, R t j g cs → R' t j g' ds →
      Node.eraseAll cs = Node.eraseAll ds) (hs : List.Forall₂ (Stands R) cs ss)
    (hs' : List.Forall₂ (Stands R') ds ss) : Node.eraseAll cs = Node.eraseAll ds := by
  induction hs generalizing ds with
  | nil =>
    cases hs'
    rfl
  | @cons c seat cs ss hc _ ih =>
    obtain _ | ⟨hd, hrest⟩ := hs'
    rename_i d ds
    have hbelow : Node.eraseAll c.children = Node.eraseAll d.children := by
      obtain ⟨-, hc⟩ := hc
      obtain ⟨-, hd⟩ := hd
      cases hclip : seat.clip? with
      | none =>
        rw [hclip] at hc hd
        rw [hc.2, hd.2]
      | some p =>
        rw [hclip] at hc hd
        obtain ⟨g, -, hg⟩ := hc
        obtain ⟨g', -, hg'⟩ := hd
        exact hR _ _ _ _ _ _ hg hg'
    rw [Node.eraseAll, Node.eraseAll, ih hrest, Node.erase_eq, Node.erase_eq, hbelow, hc.1, hd.1]

theorem Shows.eraseAll_eq (hs : Shows resolve a β σ e t j h cs)
    (hs' : Shows resolve a' β' σ' e t j h' ds) : Node.eraseAll cs = Node.eraseAll ds := by
  induction e generalizing t j h h' cs ds with
  | zero => exact eraseAll_eq_of_stands (fun _ _ _ _ _ _ hg _ => hg.elim) hs.2.2 hs'.2.2
  | succ e ih =>
    refine eraseAll_eq_of_stands ?_ hs.2.2 hs'.2.2
    intro t j g g' cs ds hg hg'
    exact ih hg hg'

theorem Scene.cursor_after_le (resolve : CharId → Option Resolved) (e : Nat) (t : Timeline) (j : Nat) :
    (Scene.after resolve e t j).cursor ≤ t.frameCount := by
  induction j with
  | zero => exact Nat.zero_le _
  | succ j ih =>
    rw [Scene.after, Scene.tick]
    generalize Scene.after resolve e t j = sc at ih ⊢
    have hnumber : sc.number t ≤ t.frameCount := by
      rw [Scene.number]
      split
      · exact Nat.zero_le _
      · exact ih
    split
    · exact ih
    · dsimp only
      split
      · obtain ⟨frame, hframe⟩ := Option.isSome_iff_exists.mp ‹_›
        exact (List.getElem?_eq_some_iff.mp hframe).1
      · exact hnumber

theorem Scene.after_of_empty (ht : t.frameCount = 0) (j : Nat) :
    Scene.after resolve e t j = {} := by
  induction j with
  | zero => rfl
  | succ j ih => rw [Scene.after, ih, Scene.tick, if_pos ht]

end SceneReel
