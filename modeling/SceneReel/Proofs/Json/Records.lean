import SceneReel.Json.Decode

/-!
How the members of an object make up a record: part by part, and each field for itself.
-/
namespace SceneReel.Json.Record

variable {σ : Type} {r : Record σ} {names : List String} {f : σ → σ}

/-- A change of the record that a field does not touch may be made before the field is set or after. -/
theorem mandatory_comm {α : Type} {name : String} {decode : Decoder α} {set : α → σ → σ}
    (hset : ∀ x s, set x (f s) = f (set x s)) (v : Json) (s : σ) :
    (Field.mandatory name decode set).decode v (f s) =
      ((Field.mandatory name decode set).decode v s).map f := by
  simp only [Field.mandatory]
  cases decode v with
  | error e => rfl
  | ok x => exact congrArg Except.ok (hset x s)

theorem optional_comm {α : Type} {name : String} {decode : Decoder α} {set : α → σ → σ}
    (hset : ∀ x s, set x (f s) = f (set x s)) (v : Json) (s : σ) :
    (Field.optional name decode set).decode v (f s) =
      ((Field.optional name decode set).decode v s).map f := by
  show (Field.mandatory name decode set).decode v (f s) = _
  exact mandatory_comm hset v s

theorem decodeMembers_append (r : Record σ) (names : List String) (s : σ)
    (ms ns : List (String × Json)) : r.decodeMembers names s (ms ++ ns) =
      (r.decodeMembers names s ms).bind fun (names, s) => r.decodeMembers names s ns := by
  induction ms generalizing names s with
  | nil => rfl
  | cons m ms ih =>
    obtain ⟨key, v⟩ := m
    rw [List.cons_append, decodeMembers, decodeMembers]
    cases hfind : r.fields.find? (·.name == key) with
    | none =>
      simp only [ih]
      split <;> rfl
    | some field =>
      simp only [ih]
      split
      · rfl
      · cases field.decode v s <;> rfl

theorem decodeMembers_map
    (hf : ∀ field ∈ r.fields, field.name ∉ names →
      ∀ v s, field.decode v (f s) = (field.decode v s).map f)
    (s : σ) (ms : List (String × Json)) :
    r.decodeMembers names (f s) ms = (r.decodeMembers names s ms).map (Prod.map id f) := by
  induction ms generalizing names s with
  | nil => rfl
  | cons m ms ih =>
    obtain ⟨key, v⟩ := m
    rw [decodeMembers, decodeMembers]
    cases hfind : r.fields.find? (·.name == key) with
    | none =>
      simp only [ih hf]
      split <;> rfl
    | some field =>
      obtain rfl : field.name = key := by simpa using List.find?_some hfind
      have hfield := List.mem_of_find?_eq_some hfind
      by_cases hkey : field.name ∈ names
      · simp [hkey, Except.map]
      · have hnames : names.contains field.name = false := by simpa using hkey
        simp only [hnames, Bool.false_eq_true, if_false, hf field hfield hkey]
        cases field.decode v s with
        | error e => rfl
        | ok t =>
          refine ih (fun field' hfield' hnew => hf field' hfield' fun hin => hnew ?_) t
          exact List.mem_cons_of_mem _ hin

/-- What is changed after the members are read may be changed after the record is. -/
theorem decode_object_map {ms ns : List (String × Json)}
    (h : r.decodeMembers [] r.blank ms = (r.decodeMembers [] r.blank ns).map (Prod.map id f))
    (cut : Option Fault) : r.decode (.object ms cut) = (r.decode (.object ns cut)).map f := by
  rw [decode, decode, h]
  cases r.decodeMembers [] r.blank ns with
  | error e => rfl
  | ok read =>
    obtain ⟨names, s⟩ := read
    change (if cut.isSome then .error .malformed else r.complete names (f s)) =
      (if cut.isSome then .error .malformed else r.complete names s).map f
    split
    · rfl
    · unfold complete
      split <;> rfl

theorem decode_object_exchange {α : Type} {name : String} {required : Bool} {decode : Decoder α}
    {ms ns : List (String × Json)} {v v' : Json} {s : σ} (set : α → σ → σ)
    (hfind : r.fields.find? (·.name == name) =
      some ⟨name, required, fun v s => (decode v).map (set · s)⟩)
    (hset : ∀ x y s, set x (set y s) = set x s)
    (hother : ∀ x, ∀ field ∈ r.fields, field.name ≠ name →
      ∀ v s, field.decode v (set x s) = (field.decode v s).map (set x))
    (h : r.decode (.object (ms ++ (name, v') :: ns)) = .ok s) :
    r.decode (.object (ms ++ (name, v) :: ns)) = (decode v).map (set · s) := by
  rw [Record.decode, decodeMembers_append] at h ⊢
  cases hms : r.decodeMembers [] r.blank ms with
  | error e => simp [hms, Except.bind] at h
  | ok read =>
    obtain ⟨names, t⟩ := read
    simp only [hms, Except.bind, decodeMembers, hfind] at h ⊢
    by_cases hnew : names.contains name = true
    · simp only [if_pos hnew] at h
      cases h
    · rw [if_neg hnew] at h ⊢
      cases hv' : decode v' with
      | error e => simp [hv', Except.map] at h
      | ok y =>
        cases hv : decode v with
        | error e => rfl
        | ok x =>
          -- What `v` sets is set on top of what `v'` has set, since the rest of the members commute with it.
          have hrest : r.decodeMembers (name :: names) (set x t) ns =
              (r.decodeMembers (name :: names) (set y t) ns).map (Prod.map id (set x)) := by
            rw [← hset x y t]
            refine decodeMembers_map (fun field hfield hnames => ?_) _ ns
            exact hother x field hfield fun he => hnames (he ▸ List.mem_cons_self)
          simp only [hv', Except.map] at h
          simp only [Except.map, hrest]
          cases hns : r.decodeMembers (name :: names) (set y t) ns with
          | error e => simp [hns] at h
          | ok read =>
            obtain ⟨names', u⟩ := read
            simp only [hns, Option.isSome_none, Bool.false_eq_true, if_false, complete,
              Prod.map_apply, id_eq] at h ⊢
            split at h
            · simp at h
            · cases h
              rfl

theorem decodeItems_cons_map {field : Field σ} {fields : List (Field σ)} {index : Nat} {vs ws : List Json}
    (h : ∀ s, r.decodeItems (index + 1) s fields vs = (r.decodeItems (index + 1) s fields ws).map f)
    (u : Json) (s : σ) : r.decodeItems index s (field :: fields) (u :: vs) =
      (r.decodeItems index s (field :: fields) (u :: ws)).map f := by
  rw [decodeItems, decodeItems]
  cases field.decode u s with
  | error e => rfl
  | ok t => exact h t

theorem decodeItems_map {fields : List (Field σ)}
    (hf : ∀ field ∈ fields, ∀ v s, field.decode v (f s) = (field.decode v s).map f)
    (index : Nat) (s : σ) (vs : List Json) :
    r.decodeItems index (f s) fields vs = (r.decodeItems index s fields vs).map f := by
  induction fields generalizing index s vs with
  | nil => cases vs <;> rfl
  | cons field fields ih =>
    obtain ⟨hfield, hrest⟩ := List.forall_mem_cons.mp hf
    cases vs with
    | nil =>
      rw [decodeItems, decodeItems]
      split
      · rfl
      · exact ih hrest (index + 1) s []
    | cons v vs =>
      rw [decodeItems, decodeItems, hfield]
      cases field.decode v s with
      | error e => rfl
      | ok t => exact ih hrest (index + 1) t vs

theorem decodeItems_exchange {α : Type} {name : String} {required : Bool} {decode : Decoder α}
    {before after : List (Field σ)} {vs ws : List Json} {v v' : Json} {index : Nat} {s t : σ}
    {set : α → σ → σ} (hset : ∀ x y s, set x (set y s) = set x s)
    (hafter : ∀ x, ∀ field ∈ after, ∀ v s, field.decode v (set x s) = (field.decode v s).map (set x))
    (hlength : vs.length = before.length)
    (h : r.decodeItems index t (before ++ ⟨name, required, fun v s => (decode v).map (set · s)⟩ :: after)
      (vs ++ v' :: ws) = .ok s) :
    r.decodeItems index t (before ++ ⟨name, required, fun v s => (decode v).map (set · s)⟩ :: after)
      (vs ++ v :: ws) = (decode v).map (set · s) := by
  induction before generalizing index t vs with
  | nil =>
    obtain rfl := List.length_eq_zero_iff.mp hlength
    rw [List.nil_append, List.nil_append, decodeItems] at h ⊢
    cases hv' : decode v' with
    | error e => simp [hv', Except.map] at h
    | ok y =>
      simp only [hv', Except.map] at h
      cases hv : decode v with
      | error e => simp only [hv, Except.map]
      | ok x =>
        simp only [hv, Except.map]
        rw [← hset x y t, decodeItems_map (hafter x), h]
        rfl
  | cons field before ih =>
    obtain ⟨u, vs, rfl⟩ := List.exists_cons_of_length_eq_add_one hlength
    rw [List.cons_append, List.cons_append, decodeItems] at h ⊢
    cases hu : field.decode u t with
    | error e => simp [hu] at h
    | ok t' =>
      simp only [hu] at h ⊢
      exact ih (Nat.succ.inj hlength) h

/-- The places of a field in a value for a record: under its name in an object, at its position in an array. -/
inductive Hole (name : String) (position : Nat) : (Json → Json) → Prop
  | member (before after : List (String × Json)) :
      Hole name position fun v => .object (before ++ (name, v) :: after)
  | item (earlier later : List Json) (hlength : earlier.length = position) :
      Hole name position fun v => .array (earlier ++ v :: later)

/-- In a record that reads, another value of a field makes the same record but for what the field sets. -/
theorem Hole.decode_eq {α : Type} {name : String} {required : Bool} {decode : Decoder α}
    {after : List (Field σ)} {hole : Json → Json} {v' : Json} {s : σ} (before : List (Field σ))
    (hh : Hole name before.length hole) (set : α → σ → σ)
    (hfields : r.fields = before ++ ⟨name, required, fun v s => (decode v).map (set · s)⟩ :: after)
    (hbefore : ∀ field ∈ before, field.name ≠ name) (hset : ∀ x y s, set x (set y s) = set x s)
    (hother : ∀ x, ∀ field ∈ before ++ after, ∀ v s, field.decode v (set x s) = (field.decode v s).map (set x))
    (h : r.decode (hole v') = .ok s) (v : Json) : r.decode (hole v) = (decode v).map (set · s) := by
  cases hh with
  | member ms ns =>
    have hfind : r.fields.find? (·.name == name) =
        some ⟨name, required, fun v s => (decode v).map (set · s)⟩ := by
      rw [hfields, List.find?_append, List.find?_eq_none.mpr (by simpa using hbefore)]
      simp
    refine decode_object_exchange set hfind hset (fun x field hfield hname => ?_) h
    rw [hfields, List.mem_append, List.mem_cons] at hfield
    rcases hfield with hfield | rfl | hfield
    · exact hother x field (List.mem_append_left _ hfield)
    · exact absurd rfl hname
    · exact hother x field (List.mem_append_right _ hfield)
  | item vs ws hlength =>
    rw [Record.decode, hfields] at h ⊢
    exact decodeItems_exchange hset (fun x field hfield => hother x field (List.mem_append_right _ hfield))
      hlength h

end SceneReel.Json.Record
