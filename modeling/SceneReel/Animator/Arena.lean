import SceneReel.Animator.Handle
import SceneReel.Timeline.Basic

/-!
The arena of animators. A slot is reused after its animator retires; its generation then moves on, so
that old handles of the slot find nothing.
-/
namespace SceneReel

structure Animation where
  timeline : Timeline
  /-- The frame to play next; the number of frames after the last one. -/
  cursor : Nat := 0
  /-- The animators that it spawned, in spawn order. -/
  children : List Handle := []
  parent : Option Handle := none
  depth : Nat := 0

structure Slot where
  generation : UInt32
  animation? : Option Animation

def Slot.isLive (s : Slot) : Bool :=
  s.animation?.isSome

/-- All animators of one tree, and the free slots, the last one freed first. -/
structure Arena where
  slots : Array Slot := #[]
  free : List UInt32 := []

namespace Arena

def lookup (slots : Array Slot) (h : Handle) : Option Animation :=
  match slots[h.index.toNat]? with
  | some slot => if slot.generation = h.generation then slot.animation? else none
  | none => none

def liveCount (slots : Array Slot) : Nat :=
  slots.countP Slot.isLive

/-- The slots with the one that a handle names holding the given animator, or none. -/
def store (slots : Array Slot) (h : Handle) (animation? : Option Animation) : Array Slot :=
  slots.setIfInBounds h.index.toNat ⟨h.generation, animation?⟩

def get? (a : Arena) (h : Handle) : Option Animation :=
  lookup a.slots h

def isLive (a : Arena) (h : Handle) : Bool :=
  (a.get? h).isSome

def size (a : Arena) : Nat :=
  liveCount a.slots

def modify (a : Arena) (h : Handle) (f : Animation → Animation) : Arena :=
  match a.get? h with
  | some x => { a with slots := store a.slots h (some (f x)) }
  | none => a

def generationAt (a : Arena) (index : UInt32) : UInt32 :=
  match a.slots[index.toNat]? with
  | some slot => slot.generation
  | none => 0

/-- Gives a new animator the slot freed last, or a further slot if none is free. -/
def alloc (a : Arena) (timeline : Timeline) (parent : Option Handle) (depth : Nat) :
    Handle × Arena :=
  let animation : Animation := { timeline, parent, depth }
  match a.free with
  | index :: free =>
    let h : Handle := ⟨index, a.generationAt index + 1⟩
    (h, { slots := store a.slots h (some animation), free })
  | [] =>
    let h : Handle := ⟨UInt32.ofNat (min a.slots.size (UInt32.size - 1)), 0⟩
    (h, { a with slots := a.slots.push ⟨0, some animation⟩ })

theorem liveCount_store_none_lt {slots : Array Slot} {h : Handle} {x : Animation}
    (hx : lookup slots h = some x) : liveCount (store slots h none) < liveCount slots := by
  unfold lookup at hx
  cases hs : slots[h.index.toNat]? with
  | none => simp [hs] at hx
  | some slot =>
    obtain ⟨hi, hslot⟩ := Array.getElem?_eq_some_iff.mp hs
    by_cases hg : slot.generation = h.generation
    · have hlive : slot.isLive = true := by simp_all [Slot.isLive]
      have hpos : 0 < slots.countP Slot.isLive :=
        Array.countP_pos_iff.mpr ⟨slot, Array.mem_of_getElem? hs, hlive⟩
      have hdead : Slot.isLive ⟨h.generation, none⟩ = false := rfl
      simp only [liveCount, store, Array.setIfInBounds, hi, dif_pos, Array.countP_set, hslot, hlive,
        hdead, if_true, Bool.false_eq_true, if_false]
      omega
    · simp [hs, hg] at hx

/--
Frees the animators on a stack with all their descendants, counting them. Handles that name nothing
are passed over.
-/
def freeAll (slots : Array Slot) (free : List UInt32) (freed : Nat) (stack : List Handle) :
    Nat × Arena :=
  match stack with
  | [] => (freed, { slots, free })
  | h :: stack =>
    match _hx : lookup slots h with
    | none => freeAll slots free freed stack
    | some x => freeAll (store slots h none) (h.index :: free) (freed + 1)
        (x.children.reverse ++ stack)
termination_by (liveCount slots, stack.length)
decreasing_by
  · exact Prod.Lex.right _ (by simp)
  · exact Prod.Lex.left _ _ (liveCount_store_none_lt _hx)

def unlink (a : Arena) (h : Handle) (parent : Option Handle) : Arena :=
  match parent with
  | none => a
  | some p => a.modify p fun x => { x with children := x.children.filter (· ≠ h) }

/-- Retires an animator and all its descendants; gives their number, zero if it is not live. -/
def retire (a : Arena) (h : Handle) : Nat × Arena :=
  match a.get? h with
  | none => (0, a)
  | some x =>
    let a := a.unlink h x.parent
    freeAll a.slots a.free 0 [h]

end Arena

end SceneReel
