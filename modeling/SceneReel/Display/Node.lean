import SceneReel.Animator.Handle
import SceneReel.Display.Siblings
import SceneReel.Geometry.TransformJson
import SceneReel.Ids

/-! The tree of display nodes. -/
namespace SceneReel

open SceneReel.Geometry

inductive NodeKind where
  /-- Only its children. -/
  | container
  | shape (char : CharId)
  | bitmap (char : CharId)
  | text (char : CharId)
  /-- A nested timeline, played by an animator if there is one. -/
  | clip (char : CharId) (animator : Option Handle)
  /-- Nothing, the character being unknown. -/
  | placeholder (char : CharId)
  deriving DecidableEq, Repr

/-- A node with its children in z-order. -/
structure Node where
  id : ObjectId
  kind : NodeKind
  transform : Transform := .identity
  visible : Bool := true
  children : List Node := []

namespace Node

def container (id : ObjectId) : Node :=
  { id, kind := .container }

/-- The animator that plays the children of a node. -/
def animator? (n : Node) : Option Handle :=
  match n.kind with
  | .clip _ animator => animator
  | _ => none

def childIds (n : Node) : List ObjectId :=
  n.children.map Node.id

def indexOf? (n : Node) (id : ObjectId) : Option Nat :=
  Siblings.indexOf? Node.id id n.children

def child? (n : Node) (id : ObjectId) : Option Node :=
  n.children.find? (·.id = id)

def contains (n : Node) (id : ObjectId) : Bool :=
  Siblings.contains Node.id id n.children

def push (n child : Node) : Node :=
  { n with children := n.children ++ [child] }

/-- Adds a child before a sibling, or on top; also gives the position it takes. -/
def insertBefore (n child : Node) (before : Option ObjectId) : Nat × Node :=
  (Siblings.insertionIndex Node.id before n.children,
    { n with children := Siblings.insertBefore Node.id child before n.children })

/-- Removes all children with an id; also gives them, in their order. -/
def removeAll (n : Node) (id : ObjectId) : List Node × Node :=
  let (removed, kept) := Siblings.extract Node.id id n.children
  (removed, { n with children := kept })

theorem removeAll_eq (n : Node) (id : ObjectId) : n.removeAll id =
    (n.children.filter (·.id = id), { n with children := n.children.filter (·.id ≠ id) }) := by
  rw [removeAll, Siblings.extract_eq_filter]

/-- Moves a child before a sibling, if both are there and are two. -/
def moveBefore? (n : Node) (id before : ObjectId) : Option Node :=
  (Siblings.moveBefore? Node.id id before n.children).map fun children => { n with children }

def mapChildren (n : Node) (id : ObjectId) (f : Node → Node) : Node :=
  { n with children := n.children.map fun c => if c.id = id then f c else c }

theorem mapChildren_of_not_contains {n : Node} {id : ObjectId} (h : n.contains id = false)
    (f : Node → Node) : n.mapChildren id f = n := by
  have hkept : n.children.map (fun c => if c.id = id then f c else c) = n.children := by
    refine (List.map_congr_left fun c hc => ?_).trans (List.map_id _)
    have hne : c.id ≠ id := fun he =>
      Bool.eq_false_iff.mp h (Siblings.contains_iff.mpr ⟨c, hc, he⟩)
    rw [if_neg hne]
    rfl
  -- nodes nest, so a node and its fields put together again are not the same by definition
  cases n
  exact congrArg _ hkept

def modifyChildAt (n : Node) (index : Nat) (f : Node → Node) : Node :=
  { n with children := n.children.modify index f }

def animatedChild? (n : Node) (h : Handle) : Option Node :=
  n.children.find? (·.animator? = some h)

/-- The node that a path of ids leads to, the first child with the id at each step. -/
def descendant? (n : Node) : List ObjectId → Option Node
  | [] => some n
  | id :: path => (n.child? id).bind (·.descendant? path)

def updateChild? {α : Type} (n : Node) (p : Node → Bool) (f : Node → Node × α) : Option (Node × α) :=
  (updateFirst? p f n.children).map fun (children, x) => ({ n with children }, x)

def updateDescendant? {α : Type} (f : Node → Node × α) : List ObjectId → Node → Option (Node × α)
  | [], n => some (f n)
  | id :: path, n =>
    match n.updateChild? (·.id = id) fun c => (c, updateDescendant? f path c) with
    | some (_, some (c, x)) => (n.updateChild? (·.id = id) fun _ => (c, x))
    | _ => none

mutual

def height : Node → Nat
  | ⟨_, _, _, _, children⟩ => heightAll children

def heightAll : List Node → Nat
  | [] => 0
  | c :: cs => max (height c + 1) (heightAll cs)

end

end Node

def NodeKind.toJson : NodeKind → Json
  | .container => .string "Container"
  | .shape char => .object [("Shape", .int char.value.toNat)]
  | .bitmap char => .object [("Bitmap", .int char.value.toNat)]
  | .text char => .object [("Text", .int char.value.toNat)]
  | .clip char animator =>
    .object [("Clip", .object [("char_id", .int char.value.toNat),
      ("animator", (animator.map Handle.toJson).getD .null)])]
  | .placeholder char => .object [("Placeholder", .int char.value.toNat)]

namespace Node

mutual

def toJson : Node → Json
  | ⟨id, kind, transform, visible, children⟩ =>
    .object [
      ("id", .int id.value.toNat),
      ("kind", kind.toJson),
      ("transform", transform.toJson),
      ("visible", .bool visible),
      ("children", .array (toJsonAll children))]

def toJsonAll : List Node → List Json
  | [] => []
  | c :: cs => toJson c :: toJsonAll cs

end

end Node

end SceneReel
