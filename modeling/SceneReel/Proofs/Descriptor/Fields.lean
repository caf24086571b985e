import SceneReel.Proofs.Geometry.Components
import SceneReel.Proofs.Text.Words
import SceneReel.Timeline.Command

/-!
What a command descriptor stands for. It compiles if the fields that its type reads are well formed, and else
fails with the first of them that is not.
-/
namespace SceneReel.Descriptor

open SceneReel.Geometry Text

/-- The fields of a command descriptor beside its type. -/
inductive CommandField where
  | charid
  | objectId
  | placeAfter
  | transformMatrix
  | visibility

def CommandDef.field? (c : CommandDef) : CommandField → Option String
  | .charid => c.charid
  | .objectId => c.objectId
  | .placeAfter => c.placeAfter
  | .transformMatrix => c.transformMatrix
  | .visibility => c.visibility

/-- The types of commands that playback knows. -/
def knownTypes : List String := ["Place", "Move", "Remove", "UpdateZOrder", "UpdateVisibility"]

/-- The fields that a type reads, in the order in which they are judged. -/
def fieldsOf : String → List CommandField
  | "Place" => [.charid, .objectId, .placeAfter, .transformMatrix]
  | "Move" => [.objectId, .transformMatrix]
  | "Remove" => [.objectId]
  | "UpdateZOrder" => [.objectId, .placeAfter]
  | "UpdateVisibility" => [.objectId, .visibility]
  | _ => []

def Denotes (text? : Option String) (w : UInt32) : Prop :=
  ∃ s, text? = some s ∧ Spells s w.toNat

/-- A text that is not there and one that spells zero denote no sibling. -/
def DenotesSibling (text? : Option String) (before : Option ObjectId) : Prop :=
  text? = none ∧ before = none ∨ ∃ w, Denotes text? w ∧ before = if w = 0 then none else some ⟨w⟩

/-- A text that is not there denotes the identity. -/
def DenotesMatrix (text? : Option String) (m : Matrix) : Prop :=
  text? = none ∧ m = .identity ∨
    ∃ s, text? = some s ∧ List.Forall₂ IsComponent (s.toList.splitOn ',') m.toList

namespace CommandDef

/-- What a field has to be like for a type that reads it. -/
def WellFormed (c : CommandDef) : CommandField → Prop
  | .charid => ∃ w, Denotes c.charid w
  | .objectId => ∃ w, Denotes c.objectId w
  | .placeAfter => ∃ before, DenotesSibling c.placeAfter before
  | .transformMatrix => ∃ m, DenotesMatrix c.transformMatrix m
  | .visibility => True

inductive Means (c : CommandDef) : FrameCommand → Prop
  | place {char object : UInt32} {before : Option ObjectId} {m : Matrix} (ht : c.cmdType = "Place")
      (hc : Denotes c.charid char) (ho : Denotes c.objectId object)
      (hb : DenotesSibling c.placeAfter before) (hm : DenotesMatrix c.transformMatrix m) :
      Means c (.known (.place ⟨char⟩ ⟨object⟩ before m))
  | move {object : UInt32} {m : Matrix} (ht : c.cmdType = "Move") (ho : Denotes c.objectId object)
      (hm : DenotesMatrix c.transformMatrix m) : Means c (.known (.move ⟨object⟩ m))
  | remove {object : UInt32} (ht : c.cmdType = "Remove") (ho : Denotes c.objectId object) :
      Means c (.known (.remove ⟨object⟩))
  | reorder {object : UInt32} {before : Option ObjectId} (ht : c.cmdType = "UpdateZOrder")
      (ho : Denotes c.objectId object) (hb : DenotesSibling c.placeAfter before) :
      Means c (.known (.reorder ⟨object⟩ before))
  | setVisible {object : UInt32} {visible : Bool} (ht : c.cmdType = "UpdateVisibility")
      (ho : Denotes c.objectId object) (hv : visible = true ↔ c.visibility = some "true") :
      Means c (.known (.setVisible ⟨object⟩ visible))
  | unsupported (ht : c.cmdType ∉ knownTypes) : Means c (.unsupported c.cmdType)

inductive Faults (c : CommandDef) : CommandField → CommandError → Prop
  | noCharacter (h : c.charid = none) : Faults c .charid .noCharacter
  | charid {s : String} {cause : NumeralError} (h : c.charid = some s) (hs : readWord s = .error cause) :
      Faults c .charid (.id ⟨.char, s, cause⟩)
  | noObject (h : c.objectId = none) : Faults c .objectId (.noObject c.cmdType)
  | objectId {s : String} {cause : NumeralError} (h : c.objectId = some s)
      (hs : readWord s = .error cause) : Faults c .objectId (.id ⟨.object, s, cause⟩)
  | placeAfter {s : String} {cause : NumeralError} (h : c.placeAfter = some s)
      (hs : readWord s = .error cause) : Faults c .placeAfter (.id ⟨.object, s, cause⟩)
  | transformMatrix {s : String} {fault : MatrixFault} (h : c.transformMatrix = some s)
      (hs : Fails (s.toList.splitOn ',') fault) : Faults c .transformMatrix (.matrix ⟨s, fault⟩)

def fault? (c : CommandDef) : CommandField → Option CommandError
  | .charid => error? c.character
  | .objectId => error? c.object
  | .placeAfter => error? c.sibling
  | .transformMatrix => error? c.matrix
  | .visibility => none

variable {c : CommandDef}

section Fields

variable {s : String} {e : CommandError}

theorem denotes_some_iff {w : UInt32} : Denotes (some s) w ↔ Spells s w.toNat := by
  simp [Denotes]

theorem character_eq_ok_iff {char : CharId} : c.character = .ok char ↔ Denotes c.charid char.value := by
  unfold character
  cases c.charid with
  | none => simp [Denotes]
  | some s => rw [mapError_eq_ok_iff, CharId.read_eq_ok_iff, denotes_some_iff]

theorem object_eq_ok_iff {object : ObjectId} :
    c.object = .ok object ↔ Denotes c.objectId object.value := by
  unfold CommandDef.object
  cases c.objectId with
  | none => simp [Denotes]
  | some s => rw [mapError_eq_ok_iff, ObjectId.read_eq_ok_iff, denotes_some_iff]

theorem sibling_eq_ok_iff {before : Option ObjectId} :
    c.sibling = .ok before ↔ DenotesSibling c.placeAfter before := by
  unfold sibling DenotesSibling
  cases c.placeAfter with
  | none => simp [Denotes, eq_comm]
  | some s =>
    rw [mapError_eq_ok_iff, map_eq_ok_iff]
    simp only [ObjectId.read_eq_ok_iff, denotes_some_iff, reduceCtorEq, false_and, false_or]
    constructor
    · rintro ⟨⟨w⟩, hw, rfl⟩
      exact ⟨w, hw, rfl⟩
    · rintro ⟨w, hw, rfl⟩
      exact ⟨⟨w⟩, hw, rfl⟩

theorem matrix_eq_ok_iff {m : Matrix} : c.matrix = .ok m ↔ DenotesMatrix c.transformMatrix m := by
  unfold matrix DenotesMatrix
  cases c.transformMatrix with
  | none => simp [eq_comm]
  | some s =>
    rw [mapError_eq_ok_iff, Matrix.read_eq_ok_iff]
    simp

theorem character_eq_error_iff : c.character = .error e ↔ Faults c .charid e := by
  constructor
  · intro h
    unfold character at h
    split at h
    · rename_i hc
      cases h
      exact .noCharacter hc
    · rename_i s hc
      obtain ⟨_, hread, rfl⟩ := mapError_eq_error_iff.mp h
      obtain ⟨cause, hs, rfl⟩ := CharId.read_eq_error_iff.mp hread
      exact .charid hc hs
  · intro h
    cases h with
    | noCharacter hc => rw [character, hc]
    | charid hc hs =>
      rw [character, hc]
      exact mapError_eq_error_iff.mpr ⟨_, CharId.read_eq_error_iff.mpr ⟨_, hs, rfl⟩, rfl⟩

theorem object_eq_error_iff : c.object = .error e ↔ Faults c .objectId e := by
  constructor
  · intro h
    unfold CommandDef.object at h
    split at h
    · rename_i hc
      cases h
      exact .noObject hc
    · rename_i s hc
      obtain ⟨_, hread, rfl⟩ := mapError_eq_error_iff.mp h
      obtain ⟨cause, hs, rfl⟩ := ObjectId.read_eq_error_iff.mp hread
      exact .objectId hc hs
  · intro h
    cases h with
    | noObject hc => rw [CommandDef.object, hc]
    | objectId hc hs =>
      rw [CommandDef.object, hc]
      exact mapError_eq_error_iff.mpr ⟨_, ObjectId.read_eq_error_iff.mpr ⟨_, hs, rfl⟩, rfl⟩

theorem sibling_eq_error_iff : c.sibling = .error e ↔ Faults c .placeAfter e := by
  constructor
  · intro h
    unfold sibling at h
    split at h
    · cases h
    · rename_i s hc
      obtain ⟨_, hread, rfl⟩ := mapError_eq_error_iff.mp h
      obtain ⟨cause, hs, rfl⟩ := ObjectId.read_eq_error_iff.mp (map_eq_error_iff.mp hread)
      exact .placeAfter hc hs
  · intro h
    cases h with
    | placeAfter hc hs =>
      rw [sibling, hc]
      have hread := ObjectId.read_eq_error_iff.mpr ⟨_, hs, rfl⟩
      exact mapError_eq_error_iff.mpr ⟨_, map_eq_error_iff.mpr hread, rfl⟩

theorem matrix_eq_error_iff : c.matrix = .error e ↔ Faults c .transformMatrix e := by
  constructor
  · intro h
    unfold matrix at h
    split at h
    · cases h
    · rename_i s hc
      obtain ⟨_, hread, rfl⟩ := mapError_eq_error_iff.mp h
      obtain ⟨rfl, hs⟩ := Matrix.read_eq_error_iff.mp hread
      exact .transformMatrix hc hs
  · intro h
    cases h with
    | transformMatrix hc hs =>
      rw [matrix, hc]
      exact mapError_eq_error_iff.mpr ⟨_, Matrix.read_eq_error_iff.mpr ⟨rfl, hs⟩, rfl⟩

theorem fault?_eq_some_iff {field : CommandField} : c.fault? field = some e ↔ Faults c field e := by
  cases field with
  | charid => exact error?_eq_some_iff.trans character_eq_error_iff
  | objectId => exact error?_eq_some_iff.trans object_eq_error_iff
  | placeAfter => exact error?_eq_some_iff.trans sibling_eq_error_iff
  | transformMatrix => exact error?_eq_some_iff.trans matrix_eq_error_iff
  | visibility => exact ⟨nofun, nofun⟩

theorem fault?_eq_none_iff {field : CommandField} : c.fault? field = none ↔ c.WellFormed field := by
  cases field with
  | charid =>
    rw [fault?, error?_eq_none_iff]
    exact ⟨fun ⟨_, h⟩ => ⟨_, character_eq_ok_iff.mp h⟩, fun ⟨w, h⟩ => ⟨⟨w⟩, character_eq_ok_iff.mpr h⟩⟩
  | objectId =>
    rw [fault?, error?_eq_none_iff]
    exact ⟨fun ⟨_, h⟩ => ⟨_, object_eq_ok_iff.mp h⟩, fun ⟨w, h⟩ => ⟨⟨w⟩, object_eq_ok_iff.mpr h⟩⟩
  | placeAfter => exact error?_eq_none_iff.trans (exists_congr fun _ => sibling_eq_ok_iff)
  | transformMatrix => exact error?_eq_none_iff.trans (exists_congr fun _ => matrix_eq_ok_iff)
  | visibility => exact ⟨fun _ => trivial, fun _ => rfl⟩

end Fields

theorem fieldsOf_of_unknown {type : String} (h : type ∉ knownTypes) : fieldsOf type = [] := by
  unfold fieldsOf
  split <;> simp_all [knownTypes]

/-- A descriptor fails as the first of the fields that its type reads does. -/
theorem error?_compile : error? c.compile = (fieldsOf c.cmdType).findSome? c.fault? := by
  unfold compile
  split
  -- One step for each field that can be read in vain, in their order; the visibility cannot.
  · rename_i ht
    rw [ht]
    exact error?_bind fun _ => error?_bind fun _ => error?_bind fun _ => error?_bind fun _ => rfl
  · rename_i ht
    rw [ht]
    exact error?_bind fun _ => error?_bind fun _ => rfl
  · rename_i ht
    rw [ht]
    exact error?_bind fun _ => rfl
  · rename_i ht
    rw [ht]
    exact error?_bind fun _ => error?_bind fun _ => rfl
  · rename_i ht
    rw [ht]
    exact error?_bind fun _ => rfl
  · rename_i hplace hmove hremove hreorder hvisible
    rw [fieldsOf_of_unknown (by simp_all [knownTypes])]
    rfl

theorem exists_compile_eq_ok_iff :
    (∃ command, c.compile = .ok command) ↔ ∀ field ∈ fieldsOf c.cmdType, c.WellFormed field := by
  rw [← error?_eq_none_iff, error?_compile, List.findSome?_eq_none_iff]
  simp only [fault?_eq_none_iff]

theorem compile_eq_error_iff {e : CommandError} :
    c.compile = .error e ↔ ∃ before field after, fieldsOf c.cmdType = before ++ field :: after ∧
      (∀ other ∈ before, c.WellFormed other) ∧ Faults c field e := by
  rw [← error?_eq_some_iff, error?_compile, List.findSome?_eq_some_iff]
  simp only [fault?_eq_some_iff, fault?_eq_none_iff]
  constructor
  · rintro ⟨before, field, after, hfields, he, hbefore⟩
    exact ⟨before, field, after, hfields, hbefore, he⟩
  · rintro ⟨before, field, after, hfields, hbefore, he⟩
    exact ⟨before, field, after, hfields, he, hbefore⟩

theorem isVisible_iff {raw : Option String} : isVisible raw = true ↔ raw = some "true" :=
  beq_iff_eq

theorem compile_eq_ok_iff {command : FrameCommand} : c.compile = .ok command ↔ c.Means command := by
  constructor
  · intro h
    unfold compile at h
    split at h
    · rename_i ht
      obtain ⟨char, hchar, h⟩ := exists_of_bind_eq_ok h
      obtain ⟨object, hobject, h⟩ := exists_of_bind_eq_ok h
      obtain ⟨before, hbefore, h⟩ := exists_of_bind_eq_ok h
      obtain ⟨m, hm, h⟩ := exists_of_bind_eq_ok h
      cases h
      exact .place ht (character_eq_ok_iff.mp hchar) (object_eq_ok_iff.mp hobject)
        (sibling_eq_ok_iff.mp hbefore) (matrix_eq_ok_iff.mp hm)
    · rename_i ht
      obtain ⟨object, hobject, h⟩ := exists_of_bind_eq_ok h
      obtain ⟨m, hm, h⟩ := exists_of_bind_eq_ok h
      cases h
      exact .move ht (object_eq_ok_iff.mp hobject) (matrix_eq_ok_iff.mp hm)
    · rename_i ht
      obtain ⟨object, hobject, h⟩ := exists_of_bind_eq_ok h
      cases h
      exact .remove ht (object_eq_ok_iff.mp hobject)
    · rename_i ht
      obtain ⟨object, hobject, h⟩ := exists_of_bind_eq_ok h
      obtain ⟨before, hbefore, h⟩ := exists_of_bind_eq_ok h
      cases h
      exact .reorder ht (object_eq_ok_iff.mp hobject) (sibling_eq_ok_iff.mp hbefore)
    · rename_i ht
      obtain ⟨object, hobject, h⟩ := exists_of_bind_eq_ok h
      cases h
      exact .setVisible ht (object_eq_ok_iff.mp hobject) isVisible_iff
    · cases h
      exact .unsupported (by simp_all [knownTypes])
  · intro h
    cases h with
    | place ht hc ho hb hm =>
      rw [compile, ht, character_eq_ok_iff.mpr hc, object_eq_ok_iff.mpr ho, sibling_eq_ok_iff.mpr hb,
        matrix_eq_ok_iff.mpr hm]
      rfl
    | move ht ho hm =>
      rw [compile, ht, object_eq_ok_iff.mpr ho, matrix_eq_ok_iff.mpr hm]
      rfl
    | remove ht ho =>
      rw [compile, ht, object_eq_ok_iff.mpr ho]
      rfl
    | reorder ht ho hb =>
      rw [compile, ht, object_eq_ok_iff.mpr ho, sibling_eq_ok_iff.mpr hb]
      rfl
    | setVisible ht ho hv =>
      rw [Bool.eq_iff_iff.mpr (hv.trans isVisible_iff.symm), compile, ht, object_eq_ok_iff.mpr ho]
      rfl
    | unsupported ht =>
      unfold compile
      split <;> first | rfl | simp_all [knownTypes]

section Unread

variable {d : CommandDef}

theorem character_congr (h : d.charid = c.charid) : d.character = c.character := by
  rw [character, character, h]

theorem object_congr (htype : d.cmdType = c.cmdType) (h : d.objectId = c.objectId) :
    d.object = c.object := by
  rw [CommandDef.object, CommandDef.object, htype, h]

theorem sibling_congr (h : d.placeAfter = c.placeAfter) : d.sibling = c.sibling := by
  rw [sibling, sibling, h]

theorem matrix_congr (h : d.transformMatrix = c.transformMatrix) : d.matrix = c.matrix := by
  rw [matrix, matrix, h]

/-- Only the type and the fields that it reads count. -/
theorem compile_congr (htype : d.cmdType = c.cmdType)
    (hfields : ∀ field ∈ fieldsOf c.cmdType, d.field? field = c.field? field) : d.compile = c.compile := by
  unfold compile
  rw [htype]
  split
  · rename_i ht
    simp only [ht, fieldsOf, List.forall_mem_cons] at hfields
    obtain ⟨hchar, hobject, hbefore, hm, -⟩ := hfields
    rw [character_congr hchar, object_congr htype hobject, sibling_congr hbefore, matrix_congr hm]
  · rename_i ht
    simp only [ht, fieldsOf, List.forall_mem_cons] at hfields
    obtain ⟨hobject, hm, -⟩ := hfields
    rw [object_congr htype hobject, matrix_congr hm]
  · rename_i ht
    simp only [ht, fieldsOf, List.forall_mem_cons] at hfields
    rw [object_congr htype hfields.1]
  · rename_i ht
    simp only [ht, fieldsOf, List.forall_mem_cons] at hfields
    obtain ⟨hobject, hbefore, -⟩ := hfields
    rw [object_congr htype hobject, sibling_congr hbefore]
  · rename_i ht
    simp only [ht, fieldsOf, List.forall_mem_cons] at hfields
    obtain ⟨hobject, hvisible, -⟩ := hfields
    have hraw : d.visibility = c.visibility := hvisible
    rw [object_congr htype hobject, hraw]
  · rfl

end Unread

end CommandDef

end SceneReel.Descriptor
