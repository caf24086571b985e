import SceneReel.Proofs.Json.Records
import SceneReel.Timeline.Command

/-!
The visibility of a command. Whatever scalar stands there, the rest of the command is read alike, and only
one value makes an object visible.
-/
namespace SceneReel.Descriptor

open Json

/-- The text of a string; no other value has one. -/
def text? : Json → Option String
  | .string s => some s
  | _ => none

/-- A value that is neither a container nor a fault. -/
def IsScalar : Json → Prop
  | .array _ | .object _ _ | .gap _ => False
  | _ => True

/-- A command with its visibility left open, which is one of the members or the sixth item. -/
inductive CommandDef.VisibilityHole : (Json → Json) → Prop
  | member (before after : List (String × Json)) (cut : Option Fault) :
      VisibilityHole fun v => .object (before ++ ("visibility", v) :: after) cut
  | item (cmdType charid objectId placeAfter transformMatrix : Json) (surplus : List Json) :
      VisibilityHole fun v =>
        .array (cmdType :: charid :: objectId :: placeAfter :: transformMatrix :: v :: surplus)

def CommandDef.withVisibility (x : Option String) (c : CommandDef) : CommandDef :=
  { c with visibility := x }

theorem decodeStringOnly_of_isScalar {v : Json} (hv : IsScalar v) :
    decodeStringOnly v = .ok (text? v) := by
  cases v with
  | array _ => cases hv
  | object _ _ => cases hv
  | gap _ => cases hv
  | _ => rfl

theorem CommandDef.decode_withVisibility (x : Option String) :
    ∀ field ∈ CommandDef.record.fields, field.name ≠ "visibility" → ∀ v c,
      field.decode v (c.withVisibility x) = (field.decode v c).map (withVisibility x) := by
  simp only [CommandDef.record, List.forall_mem_cons]
  exact ⟨fun _ => Record.mandatory_comm fun _ _ => rfl, fun _ => Record.optional_comm fun _ _ => rfl,
    fun _ => Record.optional_comm fun _ _ => rfl, fun _ => Record.optional_comm fun _ _ => rfl,
    fun _ => Record.optional_comm fun _ _ => rfl, fun h => absurd rfl h, by simp⟩

def CommandDef.visibilityField : Json.Field CommandDef :=
  .optional "visibility" decodeStringOnly fun x c => { c with visibility := x }

theorem CommandDef.decode_visibilityField {v : Json} (hv : IsScalar v) (c : CommandDef) :
    visibilityField.decode v c = .ok (c.withVisibility (text? v)) := by
  simp only [visibilityField, Field.optional, decodeStringOnly_of_isScalar hv]
  rfl

/-- A command is read with any scalar for its visibility or with none of them, and differs only there. -/
theorem CommandDef.VisibilityHole.decode_eq {hole : Json → Json} (hh : VisibilityHole hole) {v : Json}
    (hv : IsScalar v) : CommandDef.record.decode (hole v) =
      (CommandDef.record.decode (hole .null)).map (withVisibility (text? v)) := by
  cases hh with
  | member before after cut =>
    refine Record.decode_object_map ?_ cut
    rw [Record.decodeMembers_append, Record.decodeMembers_append]
    cases CommandDef.record.decodeMembers [] CommandDef.record.blank before with
    | error e => rfl
    | ok read =>
      obtain ⟨names, c⟩ := read
      have hfind : CommandDef.record.fields.find? (·.name == "visibility") = some visibilityField := rfl
      simp only [Except.bind, Record.decodeMembers, hfind, decode_visibilityField hv,
        decode_visibilityField (v := .null) trivial]
      split
      · rfl
      · refine Record.decodeMembers_map (f := withVisibility (text? v)) (fun field hfield hnew => ?_)
          (c.withVisibility none) after
        exact decode_withVisibility _ field hfield fun he => hnew (by simp [he])
  | item _ _ _ _ _ surplus =>
    refine Record.decodeItems_cons_map (fun c => ?_) _ _
    refine Record.decodeItems_cons_map (fun c => ?_) _ c
    refine Record.decodeItems_cons_map (fun c => ?_) _ c
    refine Record.decodeItems_cons_map (fun c => ?_) _ c
    refine Record.decodeItems_cons_map (fun c => ?_) _ c
    change Record.decodeItems _ 5 c [visibilityField] (v :: surplus) =
      (Record.decodeItems _ 5 c [visibilityField] (.null :: surplus)).map _
    simp only [Record.decodeItems, decode_visibilityField hv, decode_visibilityField (v := .null) trivial]
    cases surplus <;> rfl

theorem CommandDef.VisibilityHole.decode_of_ok {hole : Json → Json} (hh : VisibilityHole hole) {v w : Json}
    (hv : IsScalar v) (hw : IsScalar w) {c : CommandDef} (hc : CommandDef.record.decode (hole v) = .ok c) :
    c.visibility = text? v ∧ CommandDef.record.decode (hole w) = .ok (c.withVisibility (text? w)) := by
  rw [hh.decode_eq hv] at hc
  rw [hh.decode_eq hw]
  cases hnull : CommandDef.record.decode (hole .null) with
  | error e =>
    rw [hnull] at hc
    cases hc
  | ok base =>
    rw [hnull] at hc
    cases hc
    exact ⟨rfl, rfl⟩

theorem CommandDef.compile_visible {c : CommandDef} (hc : c.cmdType = "UpdateVisibility") :
    c.compile = c.object.map fun object => .known (.setVisible object (isVisible c.visibility)) := by
  simp only [compile, hc]
  rfl

/-- Nothing but the string of the word makes an object visible. -/
theorem isVisible_text? (v : Json) : isVisible (text? v) = true ↔ v = .string "true" := by
  cases v <;> simp [isVisible, text?]

end SceneReel.Descriptor
