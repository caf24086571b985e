import Mathlib.Data.List.Forall2
import SceneReel.Json.Decode

/-!
Values that may stand for each other, position by position: the items of an array, the members of an object
by name, the fields of a record by name or by position. A reader that takes what stands at each position
alike takes the whole alike, down to the fault that it reports.
-/
namespace SceneReel.Json

abbrev Exchange := Json → Json → Prop

inductive ByItem (R : Exchange) : Exchange
  | same (v : Json) : ByItem R v v
  | items {vs ws : List Json} (h : List.Forall₂ R vs ws) : ByItem R (.array vs) (.array ws)

section Positions

variable (ps : List (String × Exchange))

/-- What may be exchanged under a key; where nothing is said, values stay. -/
def exchangeAt (key : String) : Exchange :=
  (ps.lookup key).getD Eq

theorem exchangeAt_cons (name : String) (R : Exchange) (key : String) :
    exchangeAt ((name, R) :: ps) key = if key = name then R else exchangeAt ps key := by
  rw [exchangeAt, List.lookup_cons]
  by_cases hkey : key = name
  · rw [beq_iff_eq.mpr hkey, if_pos hkey]
    rfl
  · rw [beq_eq_false_iff_ne.mpr hkey, if_neg hkey]
    rfl

/-- The exchange of the members of an object, their keys and their order kept. -/
def Memberwise : List (String × Json) → List (String × Json) → Prop :=
  List.Forall₂ fun m n => m.1 = n.1 ∧ exchangeAt ps m.1 m.2 n.2

end Positions

/-- The exchange of items that stand for fields in order; surplus items stay. -/
inductive Itemwise : List (String × Exchange) → List Json → List Json → Prop
  | surplus (vs : List Json) : Itemwise [] vs vs
  | missing (ps : List (String × Exchange)) : Itemwise ps [] []
  | cons {name : String} {R : Exchange} {ps : List (String × Exchange)} {v w : Json}
      {vs ws : List Json} (head : R v w) (tail : Itemwise ps vs ws) :
      Itemwise ((name, R) :: ps) (v :: vs) (w :: ws)

inductive ByField (ps : List (String × Exchange)) : Exchange
  | same (v : Json) : ByField ps v v
  | members {ms ns : List (String × Json)} {cut : Option Fault} (h : Memberwise ps ms ns) :
      ByField ps (.object ms cut) (.object ns cut)
  | items {vs ws : List Json} (h : Itemwise ps vs ws) : ByField ps (.array vs) (.array ws)

/-- A reader takes values alike that may be exchanged. -/
def Decoder.Ignores {α : Type} (decode : Decoder α) (R : Exchange) : Prop :=
  ∀ v w, R v w → decode v = decode w

section Decoders

variable {α : Type} {decode : Decoder α} {R : Exchange}

theorem Decoder.ignores_eq (decode : Decoder α) : decode.Ignores Eq :=
  fun _ _ h => congrArg decode h

theorem decodeList_ignores (hd : decode.Ignores R) : (decodeList decode).Ignores (ByItem R) := by
  intro v w h
  cases h with
  | same => rfl
  | items h =>
    simp only [decodeList]
    induction h with
    | nil => rfl
    | cons hvw _ ih => rw [List.mapM_cons, List.mapM_cons, hd _ _ hvw, ih]

end Decoders

section Records

variable {σ : Type} {r : Record σ} {ps : List (String × Exchange)}

/-- The fields of a record have the names of the positions, in their order, and are read alike there. -/
def Record.Suits (fields : List (Field σ)) (ps : List (String × Exchange)) : Prop :=
  List.Forall₂ (fun field p => field.name = p.1 ∧
    ∀ v w, p.2 v w → field.decode v = field.decode w) fields ps

/-- A key is that of a field, where values are read alike, or of none, where values stay. -/
theorem Record.Suits.find? {fields : List (Field σ)} (h : Record.Suits fields ps) (key : String) :
    (∃ field, fields.find? (·.name == key) = some field ∧
      ∀ v w, exchangeAt ps key v w → field.decode v = field.decode w) ∨
    (fields.find? (·.name == key) = none ∧ exchangeAt ps key = Eq) := by
  induction h with
  | nil => exact .inr ⟨rfl, rfl⟩
  | @cons field p fields ps hhead _ ih =>
    obtain ⟨name, R⟩ := p
    obtain ⟨rfl, hdecode⟩ := hhead
    rw [exchangeAt_cons]
    by_cases hkey : key = field.name
    · refine .inl ⟨field, List.find?_cons_of_pos (by simp [hkey]), ?_⟩
      rwa [if_pos hkey]
    · rw [List.find?_cons_of_neg (by simpa using Ne.symm hkey), if_neg hkey]
      exact ih

theorem decodeMembers_congr (hr : Record.Suits r.fields ps) {ms ns : List (String × Json)}
    (h : Memberwise ps ms ns) (names : List String) (s : σ) :
    r.decodeMembers names s ms = r.decodeMembers names s ns := by
  induction h generalizing names s with
  | nil => rfl
  | @cons m n ms ns hmn _ ih =>
    obtain ⟨key, v⟩ := m
    obtain ⟨key', w⟩ := n
    obtain ⟨rfl, hvw⟩ : key = key' ∧ exchangeAt ps key v w := hmn
    rw [Record.decodeMembers, Record.decodeMembers]
    rcases hr.find? key with ⟨field, hfield, hdecode⟩ | ⟨hnone, heq⟩
    · simp only [hfield, hdecode v w hvw, ih]
    · rw [heq] at hvw
      simp only [hnone, hvw, ih]

theorem decodeItems_congr {fields : List (Field σ)} (hf : Record.Suits fields ps) {vs ws : List Json}
    (h : Itemwise ps vs ws) (index : Nat) (s : σ) :
    r.decodeItems index s fields vs = r.decodeItems index s fields ws := by
  induction h generalizing fields index s with
  | surplus => rfl
  | missing => rfl
  | cons hvw _ ih =>
    cases hf with
    | cons hhead htail => simp only [Record.decodeItems, hhead.2 _ _ hvw, ih htail]

theorem Record.decode_ignores (hr : Record.Suits r.fields ps) : Decoder.Ignores r.decode (ByField ps) := by
  intro v w h
  cases h with
  | same => rfl
  | members h => simp only [Record.decode, decodeMembers_congr hr h]
  | items h => exact decodeItems_congr hr h 0 r.blank

end Records

end SceneReel.Json
