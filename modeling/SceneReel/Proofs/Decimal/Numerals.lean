import Mathlib.Data.List.Basic
import Mathlib.Data.List.TakeDrop
import SceneReel.Decimal.Reading
import SceneReel.Ids

/-!
The decimal numerals of natural numbers. Their digits denote the number, do not start with a zero to spare,
and are what the readers of digits take.
-/
namespace SceneReel.Decimal

open Text

/-- The digits of a number, the first of them the greatest. -/
abbrev digits (n : Nat) : List Char :=
  Nat.toDigits 10 n

theorem digits_of_lt {n : Nat} (h : n < 10) : digits n = [n.digitChar] :=
  Nat.toDigits_of_lt_base h

theorem digits_of_le {n : Nat} (h : 10 ≤ n) : digits n = digits (n / 10) ++ [(n % 10).digitChar] :=
  Nat.toDigits_of_base_le (by decide) h

theorem digit?_digitChar {d : Nat} (h : d < 10) : digit? d.digitChar = some d := by
  have hall : ∀ d < 10, digit? (Nat.digitChar d) = some d := by decide
  exact hall d h

theorem isSome_digit? (c : Char) : (digit? c).isSome = c.isDigit := by
  simp only [digit?, Char.isDigit, Char.le_def]
  split <;> simp_all

section Digits

variable {n : Nat} {c : Char}

theorem isDigit_of_mem_digits (h : c ∈ digits n) : c.isDigit = true :=
  Nat.isDigit_of_mem_toDigits (by decide) (by decide) h

theorem exists_digits_eq_cons (n : Nat) : ∃ c cs, digits n = c :: cs ∧ c.isDigit = true := by
  obtain ⟨c, cs, hds⟩ := List.exists_cons_of_ne_nil (Nat.toDigits_ne_nil (n := n) (b := 10))
  exact ⟨c, cs, hds, isDigit_of_mem_digits (n := n) (by rw [digits, hds]; exact List.mem_cons_self)⟩

theorem isBlank_of_isDigit (h : c.isDigit = true) : isBlank c = false := by
  simp only [Char.isDigit, Bool.and_eq_true, decide_eq_true_eq, ge_iff_le, UInt32.le_iff_toNat_le] at h
  change 48 ≤ c.toNat ∧ c.toNat ≤ 57 at h
  simp only [isBlank, Bool.or_eq_false_iff, Bool.and_eq_false_iff, beq_eq_false_iff_ne,
    decide_eq_false_iff_not]
  omega

/-- Only the number zero starts with a zero. -/
theorem head?_digits (hn : n ≠ 0) : (digits n).head? ≠ some '0' := by
  induction n using Nat.strongRecOn with
  | ind n ih =>
    by_cases h : n < 10
    · simpa [digits_of_lt h] using hn
    · rw [digits_of_le (by omega), List.head?_append_of_ne_nil _ Nat.toDigits_ne_nil]
      exact ih (n / 10) (by omega) (by omega)

theorem digitsValue_digits (n : Nat) : digitsValue (digits n) = n := by
  induction n using Nat.strongRecOn with
  | ind n ih =>
    by_cases h : n < 10
    · simp [digits_of_lt h, digitsValue, digit?_digitChar h]
    · rw [digits_of_le (by omega), digitsValue, List.foldl_append]
      have hfront := ih (n / 10) (by omega)
      rw [digitsValue] at hfront
      simp only [hfront, List.foldl_cons, List.foldl_nil, digit?_digitChar (Nat.mod_lt n (by decide)),
        Option.getD_some]
      omega

/-- Digits are split off in full from a text that goes on with something else. -/
theorem splitDigits_append {cs rest : List Char} (hcs : ∀ c ∈ cs, c.isDigit = true)
    (hrest : ∀ c ∈ rest.head?, c.isDigit = false) : splitDigits (cs ++ rest) = (cs, rest) := by
  have hpos : ∀ c ∈ cs, (digit? c).isSome = true := fun c hc => (isSome_digit? c).trans (hcs c hc)
  have hnone : rest.takeWhile (fun c => (digit? c).isSome) = [] ∧
      rest.dropWhile (fun c => (digit? c).isSome) = rest := by
    cases rest with
    | nil => exact ⟨rfl, rfl⟩
    | cons c rest =>
      have hc : (digit? c).isSome = false := (isSome_digit? c).trans (hrest c rfl)
      exact ⟨List.takeWhile_cons_of_neg (by simp [hc]), List.dropWhile_cons_of_neg (by simp [hc])⟩
  rw [splitDigits, List.span_eq_takeWhile_dropWhile, List.takeWhile_append_of_pos hpos,
    List.dropWhile_append_of_pos hpos, hnone.1, hnone.2, List.append_nil]

end Digits

section Words

theorem trim_of_not_blank {cs : List Char} (h : ∀ c ∈ cs, isBlank c = false) : trim cs = cs := by
  have hkeep : ∀ ds : List Char, (∀ c ∈ ds, isBlank c = false) → ds.dropWhile isBlank = ds := by
    intro ds hds
    cases ds with
    | nil => rfl
    | cons c ds => exact List.dropWhile_cons_of_neg (by simp [hds c List.mem_cons_self])
  rw [trim, hkeep cs h, hkeep cs.reverse (fun c hc => h c (List.mem_reverse.mp hc)), List.reverse_reverse]

theorem readDigits_append (limit value : Nat) (cs ds : List Char) :
    readDigits limit value (cs ++ ds) =
      (readDigits limit value cs).bind fun value => readDigits limit value ds := by
  induction cs generalizing value with
  | nil => rfl
  | cons c cs ih =>
    rw [List.cons_append, readDigits, readDigits]
    cases digit? c with
    | none => rfl
    | some d =>
      simp only [ih]
      split <;> rfl

theorem readDigits_digits {limit n : Nat} (h : n < limit) : readDigits limit 0 (digits n) = .ok n := by
  induction n using Nat.strongRecOn with
  | ind n ih =>
    by_cases hn : n < 10
    · simp [digits_of_lt hn, readDigits, digit?_digitChar hn, h]
    · have hback : n / 10 * 10 + n % 10 = n := by omega
      rw [digits_of_le (by omega), readDigits_append, ih (n / 10) (by omega) (by omega)]
      simp [Except.bind, readDigits, digit?_digitChar (Nat.mod_lt n (by decide)), hback, h]

theorem readNumeral_digits {limit n : Nat} (h : n < limit) : readNumeral limit (digits n) = .ok n := by
  obtain ⟨c, cs, hds, hc⟩ := exists_digits_eq_cons n
  have hplus : c ≠ '+' := by
    rintro rfl
    cases hc
  rw [hds, readNumeral.eq_4 _ _ (by simp) (by simp [hplus]) (by simp [hplus]), ← hds]
  exact readDigits_digits h

theorem readWord_toString (w : UInt32) : readWord (toString w.toNat) = .ok w := by
  have htrim : trim (digits w.toNat) = digits w.toNat :=
    trim_of_not_blank fun c hc => isBlank_of_isDigit (isDigit_of_mem_digits hc)
  rw [readWord, Nat.toString_eq_ofList_toDigits, String.toList_ofList, htrim,
    readNumeral_digits w.toNat_lt_size]
  simp [Except.map]

end Words

end SceneReel.Decimal
