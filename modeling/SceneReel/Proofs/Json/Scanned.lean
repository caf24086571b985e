import SceneReel.Json.Printer
import SceneReel.Json.Token
import SceneReel.Proofs.Decimal.Numerals

/-!
Tokens of JSON text. What is written of a string or of an integer is one token again, and the tokens of a
text that is put together are those of its parts.
-/
namespace SceneReel.Json

open Decimal Text

section Strings

/-- What a character may stand as in a text: itself, or its code if it is a control. -/
inductive Piece.Denotes (c : Char) : Piece → Prop
  | plain : Denotes c (.char c)
  | control (h : c.toNat < 0x20) : Denotes c (.unit c.toNat)

theorem charsOfPieces?_of_denotes {cs : List Char} {ps : List Piece}
    (h : List.Forall₂ Piece.Denotes cs ps) : charsOfPieces? ps = some cs := by
  induction h with
  | nil => rfl
  | @cons c p cs ps hp _ ih =>
    cases hp with
    | plain => simp [charsOfPieces?, ih]
    | control hlt =>
      have hhigh : isHighSurrogate c.toNat = false := by simp [isHighSurrogate]; omega
      have hlow : isLowSurrogate c.toNat = false := by simp [isLowSurrogate]; omega
      -- a code that starts no pair is a character whatever follows
      have hunit : charsOfPieces? (.unit c.toNat :: ps) =
          (charsOfPieces? ps).map (Char.ofNat c.toNat :: ·) := by
        cases ps with
        | nil => simp [charsOfPieces?, hhigh, hlow]
        | cons p ps => cases p <;> simp [charsOfPieces?, hhigh, hlow]
      simp [hunit, ih, Char.ofNat_toNat]

theorem hexUnit?_control {n : Nat} (h : n < 0x20) :
    hexUnit? '0' '0' (hexChar (n / 16)) (hexChar (n % 16)) = some n := by
  have hall : ∀ n < 0x20, hexUnit? '0' '0' (hexChar (n / 16)) (hexChar (n % 16)) = some n := by decide
  exact hall n h

/-- A character is one piece, whether or not it is escaped. -/
theorem splitQuoted?_quoteChar (c : Char) : ∃ p, Piece.Denotes c p ∧ ∀ rest,
    splitQuoted? (quoteChar c ++ rest) =
      (splitQuoted? rest).bind fun (ps, rest) => some (p :: ps, rest) := by
  unfold quoteChar
  by_cases hquote : c = '"'
  · exact ⟨.char c, .plain, fun rest => by subst hquote; rfl⟩
  by_cases hback : c = '\\'
  · exact ⟨.char c, .plain, fun rest => by subst hback; rfl⟩
  by_cases hb : c = '\x08'
  · exact ⟨.char c, .plain, fun rest => by subst hb; rfl⟩
  by_cases hf : c = '\x0c'
  · exact ⟨.char c, .plain, fun rest => by subst hf; rfl⟩
  by_cases hn : c = '\n'
  · exact ⟨.char c, .plain, fun rest => by subst hn; rfl⟩
  by_cases hr : c = '\r'
  · exact ⟨.char c, .plain, fun rest => by subst hr; rfl⟩
  by_cases ht : c = '\t'
  · exact ⟨.char c, .plain, fun rest => by subst ht; rfl⟩
  by_cases hcontrol : c.toNat < 0x20
  · refine ⟨.unit c.toNat, .control hcontrol, fun rest => ?_⟩
    simp only [hquote, hback, hb, hf, hn, hr, ht, hcontrol, if_true, if_false, List.cons_append,
      List.nil_append, splitQuoted?, hexUnit?_control hcontrol]
    rfl
  · refine ⟨.char c, .plain, fun rest => ?_⟩
    simp only [hquote, hback, hb, hf, hn, hr, ht, hcontrol, if_false, List.cons_append,
      List.nil_append]
    rw [splitQuoted?.eq_5 _ _ (by simpa using hquote) (by simp [hback]) (by simp [hback])]
    simp only [hcontrol, if_false]
    rfl

theorem splitQuoted?_quoted (cs rest : List Char) : ∃ ps, List.Forall₂ Piece.Denotes cs ps ∧
    splitQuoted? (cs.flatMap quoteChar ++ '"' :: rest) = some (ps, rest) := by
  induction cs with
  | nil => exact ⟨[], .nil, rfl⟩
  | cons c cs ih =>
    obtain ⟨ps, hps, hsplit⟩ := ih
    obtain ⟨p, hp, hsplitChar⟩ := splitQuoted?_quoteChar c
    refine ⟨p :: ps, .cons hp hps, ?_⟩
    rw [List.flatMap_cons, List.append_assoc, hsplitChar, hsplit]
    rfl

theorem toList_quote_append (s : String) (rest : List Char) :
    (quote s).toList ++ rest = '"' :: (s.toList.flatMap quoteChar ++ '"' :: rest) := by
  simp [quote]

theorem Token.split?_quote (s : String) (rest : List Char) :
    Token.split? ((quote s).toList ++ rest) = some (.string (some s), rest) := by
  obtain ⟨ps, hps, hsplit⟩ := splitQuoted?_quoted s.toList rest
  rw [toList_quote_append, Token.split?, hsplit]
  simp [charsOfPieces?_of_denotes hps]

end Strings

section Numbers

/-- The text that may follow a value: none, or a mark that separates or closes, or a new line before one. -/
def Ends (rest : List Char) : Prop :=
  ∀ c ∈ rest.head?, c = ',' ∨ c = ']' ∨ c = '\x7d' ∨ c = '\n'

section Ends

variable {rest : List Char}

theorem Ends.isDigit (h : Ends rest) : ∀ c ∈ rest.head?, c.isDigit = false := by
  intro c hc
  rcases h c hc with rfl | rfl | rfl | rfl <;> rfl

/-- A number is not continued by what may follow a value. -/
theorem Ends.splitFraction? (h : Ends rest) : splitFraction? rest = some (none, rest) := by
  cases rest with
  | nil => rfl
  | cons c rest => rcases h c rfl with rfl | rfl | rfl | rfl <;> rfl

theorem Ends.splitExponent? (h : Ends rest) : splitExponent? rest = some (none, rest) := by
  cases rest with
  | nil => rfl
  | cons c rest => rcases h c rfl with rfl | rfl | rfl | rfl <;> rfl

end Ends

theorem toList_toString_int (n : Int) :
    (toString n).toList = if n < 0 then '-' :: digits n.natAbs else digits n.natAbs := by
  cases n with
  | ofNat m => exact Nat.toList_repr
  | negSucc m =>
    have htext : (toString (Int.negSucc m)).toList = '-' :: digits (m + 1) :=
      String.toList_append.trans (congrArg ('-' :: ·) Nat.toList_repr)
    rw [htext, if_pos (Int.negSucc_lt_zero m), Int.natAbs_negSucc]

theorem splitWhole?_digits (n : Nat) {rest : List Char} (hrest : Ends rest) :
    splitWhole? (digits n ++ rest) = some (digits n, rest) := by
  have hsplit : splitDigits (digits n ++ rest) = (digits n, rest) :=
    splitDigits_append (fun _ => isDigit_of_mem_digits) hrest.isDigit
  by_cases hn : n = 0
  · subst hn
    rw [splitWhole?, hsplit]
    rfl
  · have hhead := head?_digits hn
    have hne : digits n ≠ [] := Nat.toDigits_ne_nil
    rw [splitWhole?, hsplit]
    split <;> simp_all

def NumberText.ofInt (n : Int) : NumberText :=
  ⟨n < 0, digits n.natAbs, none, none⟩

theorem NumberText.value_ofInt {n : Int} (least : Int64.minValue.toInt ≤ n) (greatest : n < UInt64.size) :
    (NumberText.ofInt n).value = .int n := by
  change -9223372036854775808 ≤ n at least
  change n < 18446744073709551616 at greatest
  have hsize : UInt64.size = 18446744073709551616 := rfl
  simp only [NumberText.value, NumberText.ofInt, NumberText.isInteger, digitsValue_digits, hsize]
  by_cases hn : n < 0
  · have hneg : -(n.natAbs : Int) = n := by omega
    have hpos : 0 < n.natAbs := by omega
    have hle : n.natAbs ≤ 18446744073709551616 / 2 := by omega
    rw [if_neg (by simp [hn]), if_pos (by simp [hn, hpos, hle]), hneg]
  · have hpos : (n.natAbs : Int) = n := by omega
    have hlt : n.natAbs < 18446744073709551616 := by omega
    rw [if_pos (by simp [hn, hlt]), hpos]

theorem splitNumber?_int (n : Int) {rest : List Char} (hrest : Ends rest) :
    splitNumber? ((toString n).toList ++ rest) = some (.ofInt n, rest) := by
  have hwhole := splitWhole?_digits n.natAbs hrest
  rw [toList_toString_int]
  split
  · next h =>
    simp [splitNumber?, hwhole, hrest.splitFraction?, hrest.splitExponent?, NumberText.ofInt, h]
  · next h =>
    obtain ⟨c, cs, hds, hc⟩ := exists_digits_eq_cons n.natAbs
    have hsign : c ≠ '-' := by
      rintro rfl
      cases hc
    rw [hds, List.cons_append] at hwhole ⊢
    simp [splitNumber?, hsign, hwhole, hrest.splitFraction?, hrest.splitExponent?, NumberText.ofInt, h, hds]

theorem not_mem_of_number {c : Char} (hc : c = '-' ∨ c.isDigit = true) {others : List Char}
    (h : others.all fun m => m != '-' && !m.isDigit) : c ∉ others := by
  intro hmem
  have hother := List.all_eq_true.mp h c hmem
  rcases hc with rfl | hdigit
  · cases hother
  · simp [hdigit] at hother

/-- A text that starts with a digit or with a sign is taken for a number. -/
theorem Token.split?_number {c : Char} (hc : c = '-' ∨ c.isDigit = true) (cs : List Char) :
    Token.split? (c :: cs) = (splitNumber? (c :: cs)).map fun (t, rest) => (.atom t.value, rest) := by
  have hmark : c ∉ ['[', ']', '\x7b', '\x7d', ',', ':', '"', 'n', 't', 'f'] := not_mem_of_number hc rfl
  unfold Token.split?
  split <;> simp_all

end Numbers

section Texts

/-- These are the tokens of the text, and as much fuel as there are of them is enough. -/
def Scans (cs : List Char) (ts : List Token) : Prop :=
  ts.length ≤ cs.length ∧ ∀ fuel, ts.length ≤ fuel → Token.scanWithin fuel cs = ts

variable {cs rest : List Char} {t : Token} {ts : List Token}

theorem Scans.scan (h : Scans cs ts) : Token.scan cs = ts :=
  h.2 cs.length h.1

theorem Scans.nil : Scans [] [] :=
  ⟨Nat.le_refl 0, fun fuel _ => by cases fuel <;> rfl⟩

theorem Scans.cons {c : Char} (hspace : isSpace c = false)
    (hsplit : Token.split? (c :: cs) = some (t, rest)) (hless : rest.length ≤ cs.length)
    (h : Scans rest ts) : Scans (c :: cs) (t :: ts) := by
  obtain ⟨hlength, hscan⟩ := h
  refine ⟨Nat.succ_le_succ (Nat.le_trans hlength hless), fun fuel hfuel => ?_⟩
  cases fuel with
  | zero => cases hfuel
  | succ fuel =>
    have hkeep : (c :: cs).dropWhile isSpace = c :: cs :=
      List.dropWhile_cons_of_neg (by simp [hspace])
    have htail := hscan fuel (Nat.le_of_succ_le_succ hfuel)
    simp only [Token.scanWithin, hkeep, hsplit, htail]

theorem Scans.mark {c : Char} (hspace : isSpace c = false)
    (hsplit : Token.split? (c :: rest) = some (t, rest)) (h : Scans rest ts) :
    Scans (c :: rest) (t :: ts) :=
  .cons hspace hsplit (Nat.le_refl _) h

theorem Scans.blank {c : Char} (hspace : isSpace c = true) (h : Scans cs ts) : Scans (c :: cs) ts := by
  obtain ⟨hlength, hscan⟩ := h
  refine ⟨Nat.le_succ_of_le hlength, fun fuel hfuel => (?_ : _ = _).trans (hscan fuel hfuel)⟩
  cases fuel with
  | zero => rfl
  | succ fuel =>
    rw [Token.scanWithin, Token.scanWithin, List.dropWhile_cons_of_pos hspace]

theorem Scans.newLine (depth : Nat) (h : Scans cs ts) : Scans ((newLine depth).toList ++ cs) ts := by
  have hindent : ∀ n, Scans (List.replicate n ' ' ++ cs) ts := by
    intro n
    induction n with
    | zero => exact h
    | succ n ih => exact .blank rfl ih
  simpa [Json.newLine] using Scans.blank (c := '\n') rfl (hindent (2 * depth))

theorem Scans.quote (s : String) (h : Scans rest ts) :
    Scans ((quote s).toList ++ rest) (.string (some s) :: ts) := by
  have hsplit := Token.split?_quote s rest
  rw [toList_quote_append] at hsplit ⊢
  exact .cons rfl hsplit (by simp; omega) h

theorem Scans.int {n : Int} (least : Int64.minValue.toInt ≤ n) (greatest : n < UInt64.size)
    (hrest : Ends rest) (h : Scans rest ts) :
    Scans ((toString n).toList ++ rest) (.atom (.int n) :: ts) := by
  have hsplit := splitNumber?_int n hrest
  obtain ⟨d, ds, hds, hd⟩ := exists_digits_eq_cons n.natAbs
  obtain ⟨c, cs, htext, hc⟩ : ∃ c cs, (toString n).toList = c :: cs ∧ (c = '-' ∨ c.isDigit = true) := by
    rw [toList_toString_int, hds]
    split
    · exact ⟨'-', d :: ds, rfl, .inl rfl⟩
    · exact ⟨d, ds, rfl, .inr hd⟩
  have hspace : isSpace c = false := by
    have hblank : c ∉ [' ', '\n', '\t', '\r'] := not_mem_of_number hc rfl
    simp_all [isSpace]
  rw [htext, List.cons_append] at hsplit ⊢
  refine .cons hspace ?_ (by simp) h
  rw [Token.split?_number hc, hsplit]
  simp only [Option.map_some, NumberText.value_ofInt least greatest]

/-- In front of any text that may follow, the text has these tokens. -/
def ScansAs (text : List Char) (ts : List Token) : Prop :=
  ∀ rest us, Ends rest → Scans rest us → Scans (text ++ rest) (ts ++ us)

/-- Parts with commas between them, up to a mark that closes. -/
theorem Scans.intercalate {α : Type} {xs : List α} {text : α → List Char} {toks : α → List Token}
    (hxs : ∀ x ∈ xs, ScansAs (text x) (toks x)) (rest : List Char) {us : List Token}
    (hrest : Ends rest) (h : Scans rest us) :
    Scans ([','].intercalate (xs.map text) ++ rest) ([.comma].intercalate (xs.map toks) ++ us) := by
  induction xs with
  | nil => exact h
  | cons x xs ih =>
    obtain ⟨hx, hxs⟩ := List.forall_mem_cons.mp hxs
    cases xs with
    | nil => simpa using hx rest us hrest h
    | cons y xs =>
      have htail : Scans (',' :: ([','].intercalate ((y :: xs).map text) ++ rest))
          (.comma :: ([.comma].intercalate ((y :: xs).map toks) ++ us)) := .mark rfl rfl (ih hxs)
      simpa using hx _ _ (by simp [Ends]) htail

theorem ScansAs.scan {s : String} {ts : List Token} (h : ScansAs s.toList ts) : Token.scan s.toList = ts := by
  have hall := h [] [] (by simp [Ends]) .nil
  rw [List.append_nil, List.append_nil] at hall
  exact hall.scan

end Texts

end SceneReel.Json
