import SceneReel.Json.Decode

/-!
Objects that a writer puts together field by field. Members in the order of the fields, some of them left
out, make up the record that they give one after the other.
-/
namespace SceneReel.Json

variable {σ : Type}

/-- The members, each taken by its field in turn or left out of the text, lead from one record to another. -/
inductive Fills : List (Field σ) → List (String × Json) → σ → σ → Prop
  | nil (s : σ) : Fills [] [] s s
  | written {field : Field σ} {fields : List (Field σ)} {v : Json} {ms : List (String × Json)} {s t u : σ}
      (read : field.decode v s = .ok t) (rest : Fills fields ms t u) :
      Fills (field :: fields) ((field.name, v) :: ms) s u
  | absent {field : Field σ} {fields : List (Field σ)} {ms : List (String × Json)} {s u : σ}
      (optional : field.required = false) (rest : Fills fields ms s u) :
      Fills (field :: fields) ms s u

section Fields

variable {α : Type} {name : String} {decode : Decoder α} {set : α → σ → σ} {fields : List (Field σ)}
  {v : Json} {ms : List (String × Json)} {x : α} {s u : σ}

theorem Fills.optional (h : decode v = .ok x) (rest : Fills fields ms (set x s) u) :
    Fills (.optional name decode set :: fields) ((name, v) :: ms) s u :=
  .written (congrArg (Except.map (set · s)) h) rest

theorem Fills.mandatory (h : decode v = .ok x) (rest : Fills fields ms (set x s) u) :
    Fills (.mandatory name decode set :: fields) ((name, v) :: ms) s u :=
  .written (congrArg (Except.map (set · s)) h) rest

end Fields

/-- No two fields have a name in common. -/
def Record.Distinct (r : Record σ) : Prop :=
  (r.fields.map Field.name).Nodup

instance (r : Record σ) : Decidable r.Distinct :=
  inferInstanceAs (Decidable (List.Nodup _))

variable {r : Record σ}

theorem find?_name {fields : List (Field σ)} (h : (fields.map Field.name).Nodup) {field : Field σ}
    (hfield : field ∈ fields) : fields.find? (·.name == field.name) = some field := by
  induction fields with
  | nil => cases hfield
  | cons first fields ih =>
    rw [List.map_cons, List.nodup_cons] at h
    rcases List.mem_cons.mp hfield with rfl | hmem
    · exact List.find?_cons_of_pos (by simp)
    · have hne : first.name ≠ field.name := fun he => h.1 (he ▸ List.mem_map_of_mem hmem)
      rw [List.find?_cons_of_neg (by simpa using hne)]
      exact ih h.2 hmem

/-- What the members lead to is what is read, and no mandatory field is missed. -/
theorem Record.decodeMembers_of_fills (hr : r.Distinct) {fields : List (Field σ)}
    {ms : List (String × Json)} {s u : σ} (h : Fills fields ms s u) (hfields : fields.Sublist r.fields)
    (names : List String) (hnew : ∀ field ∈ fields, field.name ∉ names) :
    ∃ found, r.decodeMembers names s ms = .ok (found ++ names, u) ∧
      ∀ field ∈ fields, field.required = true → field.name ∈ found := by
  -- along the fields; the names met so far are those of fields already passed
  induction h generalizing names with
  | nil => exact ⟨[], rfl, by simp⟩
  | @written field fields v ms s t u hread _ ih =>
    have hnodup := (hfields.map Field.name).nodup hr
    rw [List.map_cons, List.nodup_cons] at hnodup
    have hfind := find?_name hr (hfields.subset List.mem_cons_self)
    have hfirst : names.contains field.name = false := by simpa using hnew field List.mem_cons_self
    have hnew' : ∀ other ∈ fields, other.name ∉ field.name :: names := by
      intro other hother hin
      rcases List.mem_cons.mp hin with he | hin
      · exact hnodup.1 (he ▸ List.mem_map_of_mem hother)
      · exact hnew other (List.mem_cons_of_mem _ hother) hin
    obtain ⟨found, hms, hfound⟩ := ih ((List.sublist_cons_self _ _).trans hfields) (field.name :: names) hnew'
    refine ⟨found ++ [field.name], ?_, fun other hother hrequired => ?_⟩
    · rw [decodeMembers, hfind, List.append_assoc]
      simpa [-List.contains_eq_mem, hfirst, hread] using hms
    · rcases List.mem_cons.mp hother with rfl | hmem
      · simp
      · exact List.mem_append_left _ (hfound other hmem hrequired)
  | @absent field fields ms s u hoptional _ ih =>
    obtain ⟨found, hms, hfound⟩ := ih ((List.sublist_cons_self _ _).trans hfields) names
      fun field hfield => hnew field (List.mem_cons_of_mem _ hfield)
    refine ⟨found, hms, fun field' hfield' hrequired => ?_⟩
    rcases List.mem_cons.mp hfield' with rfl | hmem
    · exact absurd hrequired (by simp [hoptional])
    · exact hfound field' hmem hrequired

theorem Record.decode_of_fills (hr : r.Distinct) {ms : List (String × Json)} {s : σ}
    (h : Fills r.fields ms r.blank s) : r.decode (.object ms) = .ok s := by
  obtain ⟨found, hms, hfound⟩ := r.decodeMembers_of_fills hr h (List.Sublist.refl _) [] (by simp)
  have hcomplete : r.fields.find? (fun field => field.required && !found.contains field.name) = none := by
    simpa using hfound
  simp only [decode, hms, List.append_nil, complete, hcomplete, Option.isSome_none, Bool.false_eq_true,
    if_false]

theorem decodeText_of_read {α : Type} {decode : Decoder α} {s : String} {v : Json} {x : α}
    (hs : read s = ⟨v, false⟩) (hv : decode v = .ok x) : decodeText decode s = .ok x := by
  simp only [decodeText, hs, hv, Bool.false_eq_true, if_false]

/-- Whatever is written is read back. -/
def Decoder.Inverts {α : Type} (decode : Decoder α) (write : α → Json) : Prop :=
  ∀ x, decode (write x) = .ok x

theorem Decoder.Inverts.list {α : Type} {decode : Decoder α} {write : α → Json}
    (h : decode.Inverts write) : (decodeList decode).Inverts fun xs => .array (xs.map write) := by
  intro xs
  simp only [decodeList]
  induction xs with
  | nil => rfl
  | cons x xs ih =>
    rw [List.map_cons, List.mapM_cons, h, ih]
    rfl

end SceneReel.Json
