import SceneReel.Proofs.Json.Printed

/-!
Printing and reading back. A value that its text has all of is what the text is read as, and two units of
fuel for each token suffice.
-/
namespace SceneReel.Json

/-- The value is read from its tokens, whatever follows them. -/
def ReadsBack (depth : Nat) (v : Json) : Prop :=
  ∀ fuel ts, 2 * (tokens v).length ≤ fuel → readValue fuel depth (tokens v ++ ts) = (v, some ts)

section Containers

variable {depth : Nat}

theorem readItems_tokens {vs : List Json} (hne : vs ≠ []) (hvs : ∀ v ∈ vs, ReadsBack depth v)
    (ts : List Token) (fuel : Nat)
    (hfuel : 2 * ([.comma].intercalate (vs.map tokens)).length + 1 ≤ fuel) :
    readItems fuel depth ([.comma].intercalate (vs.map tokens) ++ .closeArray :: ts) = (vs, some ts) := by
  induction vs generalizing fuel with
  | nil => exact absurd rfl hne
  | cons v vs ih =>
    obtain ⟨hv, hvs⟩ := List.forall_mem_cons.mp hvs
    obtain ⟨fuel, rfl⟩ : ∃ n, fuel = n + 1 := ⟨fuel - 1, by omega⟩
    cases vs with
    | nil =>
      rw [List.map_singleton, List.intercalate_singleton] at hfuel ⊢
      rw [readItems, hv fuel _ (by omega)]
    | cons w vs =>
      rw [List.map_cons, List.map_cons, List.intercalate_cons_cons, ← List.map_cons] at hfuel ⊢
      simp only [List.length_append, List.length_singleton] at hfuel
      have htail := ih (List.cons_ne_nil w vs) hvs fuel (by omega)
      rw [List.append_assoc, List.append_assoc, readItems, hv fuel _ (by omega), List.singleton_append]
      simp only [htail]

theorem readMembers_tokens {ms : List (String × Json)} (hne : ms ≠ [])
    (hms : ∀ m ∈ ms, ReadsBack depth m.2) (ts : List Token) (fuel : Nat)
    (hfuel : 2 * ([.comma].intercalate (ms.map tokensOfMember)).length + 1 ≤ fuel) :
    readMembers fuel depth ([.comma].intercalate (ms.map tokensOfMember) ++ .closeObject :: ts) =
      (ms, none, some ts) := by
  induction ms generalizing fuel with
  | nil => exact absurd rfl hne
  | cons m ms ih =>
    obtain ⟨hm, hms⟩ := List.forall_mem_cons.mp hms
    obtain ⟨fuel, rfl⟩ : ∃ n, fuel = n + 1 := ⟨fuel - 1, by omega⟩
    cases ms with
    | nil =>
      rw [List.map_singleton, List.intercalate_singleton, tokensOfMember] at hfuel ⊢
      simp only [List.length_cons] at hfuel
      simp only [List.cons_append, readMembers, hm fuel _ (by omega)]
    | cons n ms =>
      rw [List.map_cons, List.map_cons, List.intercalate_cons_cons, ← List.map_cons,
        tokensOfMember] at hfuel ⊢
      simp only [List.length_append, List.length_cons, List.length_nil] at hfuel
      have htail := ih (List.cons_ne_nil n ms) hms fuel (by omega)
      simp only [List.cons_append, List.nil_append, List.append_assoc, readMembers,
        hm fuel _ (by omega), htail]

end Containers

/-- No value starts with the end of an array. -/
theorem Plain.exists_tokens_eq_cons {depth : Nat} {v : Json} (hv : Plain depth v) :
    ∃ t ts, tokens v = t :: ts ∧ t ≠ .closeArray := by
  cases hv <;> exact ⟨_, _, rfl, nofun⟩

theorem enclosed_of_lt {depth : Nat} (h : depth < depthLimit) (v : Json) : enclosed depth v = v :=
  if_pos h

theorem Plain.readsBack {depth : Nat} {v : Json} (hv : Plain depth v) : ReadsBack depth v := by
  -- a container spends one unit on its opening token and one on each item besides what the item spends
  induction hv with
  | null | bool | int | string =>
    rintro (_ | fuel) ts hfuel
    · cases hfuel
    · rfl
  | @array depth vs room items ih =>
    rintro (_ | fuel) ts hfuel
    · cases hfuel
    rw [tokens, tokensOfItems_eq_map] at hfuel ⊢
    cases vs with
    | nil => simp [readValue, enclosed_of_lt room]
    | cons v vs =>
      have hread := readItems_tokens (List.cons_ne_nil v vs) ih ts fuel
        (by simp only [List.length_append, List.length_cons] at hfuel; omega)
      -- the first item is not taken for the end of an empty array
      obtain ⟨t, us, hv, ht⟩ := (items v List.mem_cons_self).exists_tokens_eq_cons
      have hfirst : ∃ us, [.comma].intercalate ((v :: vs).map tokens) = t :: us := by
        cases vs <;> exact ⟨_, by simp [hv]; rfl⟩
      obtain ⟨us, hus⟩ := hfirst
      rw [hus] at hread ⊢
      simp only [List.cons_append, List.append_assoc, List.nil_append] at hread ⊢
      simp [readValue, ht, hread, enclosed_of_lt room]
  | @object depth ms room members ih =>
    rintro (_ | fuel) ts hfuel
    · cases hfuel
    rw [tokens, tokensOfMembers_eq_map] at hfuel ⊢
    cases ms with
    | nil => simp [readValue, enclosed_of_lt room]
    | cons m ms =>
      have hread := readMembers_tokens (List.cons_ne_nil m ms) ih ts fuel
        (by simp only [List.length_append, List.length_cons] at hfuel; omega)
      have hfirst : ∃ us, [.comma].intercalate ((m :: ms).map tokensOfMember) = .string (some m.1) :: us := by
        cases ms <;> exact ⟨_, rfl⟩
      obtain ⟨us, hus⟩ := hfirst
      rw [hus] at hread ⊢
      simp only [List.cons_append, List.append_assoc, List.nil_append] at hread ⊢
      simp only [readValue, hread, enclosed_of_lt room]

/-- A plain value is read back from any text that has its tokens, to the end of the text. -/
theorem Plain.read_of_scansAs {v : Json} (hv : Plain 0 v) {s : String} (hs : ScansAs s.toList (tokens v)) :
    read s = ⟨v, false⟩ := by
  have h := hv.readsBack (2 * (tokens v).length + 1) [] (by omega)
  rw [List.append_nil] at h
  simp only [read, hs.scan, h]

theorem Plain.read_write {v : Json} (hv : Plain 0 v) (write : Json → String)
    (hwrite : write ∈ [compact, pretty 0]) : read (write v) = ⟨v, false⟩ := by
  simp only [List.mem_cons, List.not_mem_nil, or_false] at hwrite
  rcases hwrite with rfl | rfl
  · exact hv.read_of_scansAs hv.scansAs_compact
  · exact hv.read_of_scansAs (hv.scansAs_pretty 0)

end SceneReel.Json
