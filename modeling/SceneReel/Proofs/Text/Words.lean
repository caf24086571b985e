import Mathlib.Data.List.DropRight
import SceneReel.Asset.Kinds
import SceneReel.Proofs.Decimal.Numerals
import SceneReel.Proofs.Fallible
import SceneReel.Proofs.Json.Records

/-!
The texts that spell 32-bit numbers. Documents have several readers for them, of object ids, of character ids
and of the sizes of bitmaps; each takes the decimal numerals below the limit, with blanks around them, and
nothing else.
-/
namespace SceneReel.Text

def Blank (cs : List Char) : Prop :=
  ∀ c ∈ cs, isBlank c = true

instance (cs : List Char) : Decidable (Blank cs) :=
  decidable_of_iff (cs.all isBlank = true) List.all_eq_true

/-- The numeral of a number: digits, one at least, and perhaps a plus sign before them. -/
inductive Numeral : List Char → Nat → Prop
  | plain {ds : List Char} (hne : ds ≠ []) (hds : ∀ c ∈ ds, c.isDigit = true) :
      Numeral ds (Nat.ofDigitChars 10 ds 0)
  | signed {ds : List Char} (hne : ds ≠ []) (hds : ∀ c ∈ ds, c.isDigit = true) :
      Numeral ('+' :: ds) (Nat.ofDigitChars 10 ds 0)

/-- The text is the numeral of a number, with blanks around it. -/
def Spells (s : String) (n : Nat) : Prop :=
  ∃ lead numeral trail, s.toList = lead ++ numeral ++ trail ∧ Blank lead ∧ Numeral numeral n ∧ Blank trail

section Trim

variable {lead body trail : List Char}

theorem exists_trim (cs : List Char) :
    ∃ lead trail, cs = lead ++ trim cs ++ trail ∧ Blank lead ∧ Blank trail := by
  have htrim : trim cs = (cs.dropWhile isBlank).rdropWhile isBlank := rfl
  refine ⟨cs.takeWhile isBlank, (cs.dropWhile isBlank).rtakeWhile isBlank, ?_,
    fun c hc => List.mem_takeWhile_imp hc, fun c hc => List.mem_rtakeWhile_imp hc⟩
  rw [htrim, List.append_assoc, List.rdropWhile_append_rtakeWhile, List.takeWhile_append_dropWhile]

/-- Blanks around a text make no difference to what is left of it. -/
theorem trim_append (hlead : Blank lead) (htrail : Blank trail) :
    trim (lead ++ body ++ trail) = trim body := by
  rw [trim, List.append_assoc, List.dropWhile_append_of_pos hlead, List.dropWhile_append]
  cases hbody : body.dropWhile isBlank with
  | nil =>
    have hnone : trail.dropWhile isBlank = [] := List.dropWhile_eq_nil_iff.mpr htrail
    simp [hnone, trim, hbody]
  | cons c cs =>
    have hback : ∀ d ∈ trail.reverse, isBlank d = true := fun d hd => htrail d (List.mem_reverse.mp hd)
    rw [List.isEmpty_cons, if_neg Bool.false_ne_true, List.reverse_append,
      List.dropWhile_append_of_pos hback, trim, hbody]

end Trim

namespace Numeral

variable {cs : List Char} {n m : Nat}

theorem isBlank (h : Numeral cs n) : ∀ c ∈ cs, isBlank c = false := by
  cases h with
  | plain hne hds => exact fun c hc => Decimal.isBlank_of_isDigit (hds c hc)
  | signed hne hds =>
    intro c hc
    rcases List.mem_cons.mp hc with rfl | hc
    · rfl
    · exact Decimal.isBlank_of_isDigit (hds c hc)

theorem plus_or_isDigit (h : Numeral cs n) : ∀ c ∈ cs, c = '+' ∨ c.isDigit = true := by
  cases h with
  | plain hne hds => exact fun c hc => .inr (hds c hc)
  | signed hne hds => exact fun c hc => (List.mem_cons.mp hc).imp id (hds c)

theorem ne_nil (h : Numeral cs n) : cs ≠ [] := by
  cases h with
  | plain hne hds => exact hne
  | signed hne hds => exact List.cons_ne_nil _ _

theorem unique (hn : Numeral cs n) (hm : Numeral cs m) : n = m := by
  have hplus : ('+' : Char).isDigit ≠ true := by decide
  cases hn with
  | plain hne hds =>
    cases hm with
    | plain => rfl
    | signed => exact absurd (hds '+' List.mem_cons_self) hplus
  | signed hne hds =>
    cases hm with
    | plain _ hplain => exact absurd (hplain '+' List.mem_cons_self) hplus
    | signed => rfl

end Numeral

theorem spells_iff_trim {s : String} {n : Nat} : Spells s n ↔ Numeral (trim s.toList) n := by
  constructor
  · rintro ⟨lead, numeral, trail, hs, hlead, hnumeral, htrail⟩
    rwa [hs, trim_append hlead htrail, Decimal.trim_of_not_blank hnumeral.isBlank]
  · intro h
    obtain ⟨lead, trail, hs, hlead, htrail⟩ := exists_trim s.toList
    exact ⟨lead, _, trail, hs, hlead, h, htrail⟩

section Reading

variable {limit value n : Nat} {cs : List Char}

theorem digit?_eq_some_iff {c : Char} {d : Nat} :
    digit? c = some d ↔ c.isDigit = true ∧ d = c.toNat - '0'.toNat := by
  rw [← Decimal.isSome_digit?, digit?]
  split
  · rw [Option.some.injEq, Option.isSome_some, eq_comm]
    exact ⟨fun h => ⟨rfl, h⟩, And.right⟩
  · constructor
    · intro h
      cases h
    · intro h
      exact absurd h.1 Bool.false_ne_true

theorem le_ofDigitChars (value : Nat) (cs : List Char) : value ≤ Nat.ofDigitChars 10 cs value := by
  induction cs generalizing value with
  | nil => exact le_rfl
  | cons c cs ih =>
    rw [Nat.ofDigitChars_cons]
    have := ih (10 * value + (c.toNat - '0'.toNat))
    omega

/-- Digits continue a numeral just if they come to less than the limit: what reaches that never gets
below it. -/
theorem readDigits_eq_ok_iff (hv : value < limit) : readDigits limit value cs = .ok n ↔
    (∀ c ∈ cs, c.isDigit = true) ∧ Nat.ofDigitChars 10 cs value = n ∧ n < limit := by
  induction cs generalizing value with
  | nil =>
    simp only [readDigits, Except.ok.injEq, List.not_mem_nil, false_implies, implies_true, true_and,
      Nat.ofDigitChars_nil]
    exact ⟨fun h => ⟨h, h ▸ hv⟩, And.left⟩
  | cons c cs ih =>
    rw [readDigits, Nat.ofDigitChars_cons, List.forall_mem_cons]
    cases hc : digit? c with
    | none =>
      have hother : c.isDigit = false := by rw [← Decimal.isSome_digit?, hc]; rfl
      simp [hother]
    | some d =>
      obtain ⟨hdigit, rfl⟩ := digit?_eq_some_iff.mp hc
      have hnext : value * 10 + (c.toNat - '0'.toNat) = 10 * value + (c.toNat - '0'.toNat) := by omega
      dsimp only
      rw [hnext]
      by_cases hlt : 10 * value + (c.toNat - '0'.toNat) < limit
      · rw [if_pos hlt, ih hlt]
        simp [hdigit]
      · have hle := le_ofDigitChars (10 * value + (c.toNat - '0'.toNat)) cs
        rw [if_neg hlt]
        constructor
        · intro h
          cases h
        · rintro ⟨_, hn, hsmall⟩
          omega

theorem readNumeral_eq_ok_iff (hlimit : 0 < limit) :
    readNumeral limit cs = .ok n ↔ Numeral cs n ∧ n < limit := by
  have hplus : ('+' : Char).isDigit ≠ true := by decide
  unfold readNumeral
  split
  · exact ⟨nofun, fun h => absurd rfl h.1.ne_nil⟩
  · refine ⟨nofun, fun h => ?_⟩
    cases h.1 with
    | plain _ hds => exact absurd (hds '+' List.mem_cons_self) hplus
    | signed hne _ => exact absurd rfl hne
  · rename_i ds hds
    rw [readDigits_eq_ok_iff hlimit]
    refine ⟨fun ⟨hdigits, hn, hlt⟩ => ⟨hn ▸ .signed hds hdigits, hlt⟩, fun ⟨h, hlt⟩ => ?_⟩
    cases h with
    | plain _ hdigits => exact absurd (hdigits '+' List.mem_cons_self) hplus
    | signed _ hdigits => exact ⟨hdigits, rfl, hlt⟩
  · rename_i hnil _ hplain
    rw [readDigits_eq_ok_iff hlimit]
    refine ⟨fun ⟨hdigits, hn, hlt⟩ => ⟨hn ▸ .plain hnil hdigits, hlt⟩, fun ⟨h, hlt⟩ => ?_⟩
    cases h with
    | plain _ hdigits => exact ⟨hdigits, rfl, hlt⟩
    | signed _ _ => exact absurd rfl (hplain _)

theorem readWord_eq_ok_iff {s : String} {w : UInt32} : readWord s = .ok w ↔ Spells s w.toNat := by
  have hsize : readNumeral UInt32.size (trim s.toList) = .ok w.toNat ↔
      Numeral (trim s.toList) w.toNat ∧ w.toNat < UInt32.size := readNumeral_eq_ok_iff (by decide)
  rw [and_iff_left w.toNat_lt_size] at hsize
  rw [spells_iff_trim, ← hsize, readWord]
  cases hread : readNumeral UInt32.size (trim s.toList) with
  | error cause => simp [Except.map]
  | ok n =>
    have hn := ((readNumeral_eq_ok_iff (by decide)).mp hread).2
    simp only [Except.map, Except.ok.injEq]
    constructor
    · rintro rfl
      exact (UInt32.toNat_ofNat_of_lt' hn).symm
    · rintro rfl
      exact UInt32.ofNat_toNat

end Reading

namespace Spells

variable {s : String} {n m : Nat}

theorem unique (hn : Spells s n) (hm : Spells s m) : n = m :=
  (spells_iff_trim.mp hn).unique (spells_iff_trim.mp hm)

theorem mem (h : Spells s n) : ∀ c ∈ s.toList, isBlank c = true ∨ c = '+' ∨ c.isDigit = true := by
  obtain ⟨lead, numeral, trail, hs, hlead, hnumeral, htrail⟩ := h
  intro c hc
  rw [hs, List.mem_append, List.mem_append] at hc
  rcases hc with (hc | hc) | hc
  · exact .inl (hlead c hc)
  · exact .inr (hnumeral.plus_or_isDigit c hc)
  · exact .inl (htrail c hc)

theorem not_blank (h : Spells s n) : ¬ Blank s.toList := by
  intro hblank
  obtain ⟨lead, numeral, trail, hs, -, hnumeral, -⟩ := h
  obtain ⟨c, cs, rfl⟩ := List.exists_cons_of_ne_nil hnumeral.ne_nil
  have hc := hblank c (by simp [hs])
  rw [hnumeral.isBlank c List.mem_cons_self] at hc
  cases hc

theorem blank_of_split (h : Spells s n) {front rest : List Char} {b : Char}
    (hsplit : s.toList = front ++ b :: rest) (hb : isBlank b = true) : Blank front ∨ Blank rest := by
  obtain ⟨lead, numeral, trail, hs, hlead, hnumeral, htrail⟩ := h
  rw [hs, List.append_assoc] at hsplit
  rcases List.append_eq_append_iff.mp hsplit with ⟨more, rfl, hmore⟩ | ⟨more, rfl, -⟩
  · rcases List.append_eq_append_iff.mp hmore with ⟨more', rfl, hmore'⟩ | ⟨more', rfl, hmore'⟩
    · refine .inr fun c hc => htrail c ?_
      rw [hmore']
      exact List.mem_append_right _ (List.mem_cons_of_mem _ hc)
    · cases more' with
      | nil =>
        obtain rfl : b :: rest = trail := hmore'
        exact .inr fun c hc => htrail c (List.mem_cons_of_mem _ hc)
      | cons d ds =>
        obtain ⟨rfl, -⟩ := List.cons.inj hmore'
        rw [hnumeral.isBlank b (List.mem_append_right _ List.mem_cons_self)] at hb
        cases hb
  · exact .inl fun c hc => hlead c (List.mem_append_left _ hc)

/-- The numeral may have a plus sign and zeros in front, and blanks around it. -/
theorem padded {lead plus zeros trail : String} (hlead : Blank lead.toList) (htrail : Blank trail.toList)
    (hplus : plus = "" ∨ plus = "+") (hzeros : ∀ c ∈ zeros.toList, c = '0') (n : Nat) :
    Spells (lead ++ plus ++ zeros ++ toString n ++ trail) n := by
  have hvalue : Nat.ofDigitChars 10 (zeros.toList ++ Decimal.digits n) 0 = n := by
    have hnone : Nat.ofDigitChars 10 zeros.toList 0 = 0 := by
      rw [List.eq_replicate_of_mem hzeros]
      exact Nat.ofDigitChars_replicate_zero ..
    rw [Nat.ofDigitChars_append, hnone]
    exact Nat.ofDigitChars_toDigits (by decide) (by decide)
  have hne : zeros.toList ++ Decimal.digits n ≠ [] := by simp
  have hds : ∀ c ∈ zeros.toList ++ Decimal.digits n, c.isDigit = true := by
    intro c hc
    rcases List.mem_append.mp hc with hc | hc
    · rw [hzeros c hc]
      decide
    · exact Decimal.isDigit_of_mem_digits hc
  have hnumeral : Numeral (plus.toList ++ (zeros.toList ++ Decimal.digits n)) n := by
    rcases hplus with rfl | rfl
    · have hplain := Numeral.plain hne hds
      rwa [hvalue] at hplain
    · have hsigned := Numeral.signed hne hds
      rwa [hvalue] at hsigned
  refine ⟨lead.toList, _, trail.toList, ?_, hlead, hnumeral, htrail⟩
  simp

end Spells

/-- A reader takes the numerals of 32-bit numbers, blanks around them allowed, and refuses all other texts. -/
structure ReadsWords {ε : Type} (read : String → Except ε UInt32) : Prop where
  ok_iff : ∀ s w, read s = .ok w ↔ Spells s w.toNat
  padded : ∀ lead plus zeros trail : String, Blank lead.toList → Blank trail.toList →
    plus = "" ∨ plus = "+" → (∀ c ∈ zeros.toList, c = '0') → ∀ w : UInt32,
      read (lead ++ plus ++ zeros ++ toString w.toNat ++ trail) = .ok w
  /-- Minus signs and the digits of other scripts are such characters. -/
  foreign : ∀ s, ∀ c ∈ s.toList, isBlank c = false → c ≠ '+' → c.isDigit = false →
    ∃ e, read s = .error e
  inner_blank : ∀ s front rest b, s.toList = front ++ b :: rest → isBlank b = true →
    ¬ Blank front → ¬ Blank rest → ∃ e, read s = .error e
  blank : ∀ s, Blank s.toList → ∃ e, read s = .error e
  overflow : ∀ s n, Spells s n → UInt32.size ≤ n → ∃ e, read s = .error e

/-- All that a reader of words refuses follows from what it takes. -/
theorem readsWords_of_ok_iff {ε : Type} {read : String → Except ε UInt32}
    (h : ∀ s w, read s = .ok w ↔ Spells s w.toNat) : ReadsWords read := by
  have hrefused : ∀ s, (∀ w : UInt32, ¬ Spells s w.toNat) → ∃ e, read s = .error e := by
    intro s hs
    cases hread : read s with
    | error e => exact ⟨e, rfl⟩
    | ok w => exact absurd ((h s w).mp hread) (hs w)
  refine ⟨h, fun lead plus zeros trail hlead htrail hplus hzeros w => ?_, fun s c hc hblank hplus hdigit => ?_,
    fun s front rest b hsplit hb hfront hrest => ?_, fun s hs => ?_, fun s n hn hle => ?_⟩
  · exact (h _ w).mpr (Spells.padded hlead htrail hplus hzeros w.toNat)
  · refine hrefused s fun w hw => ?_
    rcases hw.mem c hc with hc | hc | hc
    · exact absurd hc (Bool.eq_false_iff.mp hblank)
    · exact hplus hc
    · exact absurd hc (Bool.eq_false_iff.mp hdigit)
  · exact hrefused s fun w hw => (hw.blank_of_split hsplit hb).elim hfront hrest
  · exact hrefused s fun w hw => hw.not_blank hs
  · refine hrefused s fun w hw => ?_
    have hlt := w.toNat_lt_size
    rw [hw.unique hn] at hlt
    exact absurd hlt (Nat.not_lt.mpr hle)

end SceneReel.Text

namespace SceneReel

open Text Json Descriptor Asset

theorem readId_eq_ok_iff (kind : IdKind) {s : String} {w : UInt32} :
    readId kind s = .ok w ↔ Spells s w.toNat :=
  mapError_eq_ok_iff.trans readWord_eq_ok_iff

theorem ObjectId.read_eq_ok_iff {s : String} {id : ObjectId} :
    ObjectId.read s = .ok id ↔ Spells s id.value.toNat := by
  obtain ⟨w⟩ := id
  rw [ObjectId.read, map_eq_ok_iff, ← readId_eq_ok_iff .object]
  simp

theorem CharId.read_eq_ok_iff {s : String} {id : CharId} :
    CharId.read s = .ok id ↔ Spells s id.value.toNat := by
  obtain ⟨w⟩ := id
  rw [CharId.read, map_eq_ok_iff, ← readId_eq_ok_iff .char]
  simp

theorem ObjectId.read_eq_error_iff {s : String} {e : IdError} :
    ObjectId.read s = .error e ↔ ∃ cause, readWord s = .error cause ∧ ⟨.object, s, cause⟩ = e :=
  map_eq_error_iff.trans mapError_eq_error_iff

theorem CharId.read_eq_error_iff {s : String} {e : IdError} :
    CharId.read s = .error e ↔ ∃ cause, readWord s = .error cause ∧ ⟨.char, s, cause⟩ = e :=
  map_eq_error_iff.trans mapError_eq_error_iff

theorem decodeWord_string_eq_ok_iff {s : String} {w : UInt32} :
    decodeWord (.string s) = .ok w ↔ Spells s w.toNat :=
  mapError_eq_ok_iff.trans readWord_eq_ok_iff

section Bitmaps

open Record (Hole)

variable {hole : Json → Json} {b : Bitmap} {v' : Json}

theorem decode_width (hh : Hole "width" 0 hole) (h : Bitmap.record.decode (hole v') = .ok b) (v : Json) :
    Bitmap.record.decode (hole v) = (decodeWord v).map fun w => { b with width := w } := by
  refine Hole.decode_eq [] hh (fun w b => { b with width := w }) rfl (List.forall_mem_nil _)
    (fun _ _ _ => rfl) (fun w => ?_) h v
  simp only [List.nil_append, List.forall_mem_cons]
  exact ⟨Record.mandatory_comm fun _ _ => rfl, Record.mandatory_comm fun _ _ => rfl,
    List.forall_mem_nil _⟩

theorem decode_height (hh : Hole "height" 1 hole) (h : Bitmap.record.decode (hole v') = .ok b) (v : Json) :
    Bitmap.record.decode (hole v) = (decodeWord v).map fun w => { b with height := w } := by
  refine Hole.decode_eq [_] hh (fun w b => { b with height := w }) rfl ?_ (fun _ _ _ => rfl) (fun w => ?_) h v
  · simp [Field.mandatory]
  · simp only [List.singleton_append, List.forall_mem_cons]
    exact ⟨Record.mandatory_comm fun _ _ => rfl, Record.mandatory_comm fun _ _ => rfl,
      List.forall_mem_nil _⟩

end Bitmaps

/-- Ids and the sizes of bitmaps are read from the same texts, as the same numbers. -/
theorem words_read_alike :
    ReadsWords (fun s => (ObjectId.read s).map ObjectId.value) ∧
    ReadsWords (fun s => (CharId.read s).map CharId.value) ∧
    (∀ hole v b, Record.Hole "width" 0 hole → Bitmap.record.decode (hole v) = .ok b →
      ReadsWords fun s => (Bitmap.record.decode (hole (.string s))).map Bitmap.width) ∧
    (∀ hole v b, Record.Hole "height" 1 hole → Bitmap.record.decode (hole v) = .ok b →
      ReadsWords fun s => (Bitmap.record.decode (hole (.string s))).map Bitmap.height) := by
  refine ⟨readsWords_of_ok_iff fun s w => ?_, readsWords_of_ok_iff fun s w => ?_,
    fun hole v b hh hb => readsWords_of_ok_iff fun s w => ?_,
    fun hole v b hh hb => readsWords_of_ok_iff fun s w => ?_⟩
  · refine map_eq_ok_iff.trans ⟨fun ⟨_, h, hw⟩ => hw ▸ ObjectId.read_eq_ok_iff.mp h, fun h => ?_⟩
    exact ⟨⟨w⟩, ObjectId.read_eq_ok_iff.mpr h, rfl⟩
  · refine map_eq_ok_iff.trans ⟨fun ⟨_, h, hw⟩ => hw ▸ CharId.read_eq_ok_iff.mp h, fun h => ?_⟩
    exact ⟨⟨w⟩, CharId.read_eq_ok_iff.mpr h, rfl⟩
  · rw [decode_width hh hb, ← decodeWord_string_eq_ok_iff]
    cases decodeWord (.string s) <;> simp [Except.map]
  · rw [decode_height hh hb, ← decodeWord_string_eq_ok_iff]
    cases decodeWord (.string s) <;> simp [Except.map]

def paddedSeven : String := " \n+007\u3000"

def hillMembers : List (String × Json) := [("height", .int 2), ("bitmapPath", .string "hill.png")]

/-- All of them read seven, and none reads the zero with a minus sign. -/
theorem seven_read_alike :
    Bitmap.record.decode (.object (("width", .int 1) :: hillMembers)) = .ok ⟨1, 2, "hill.png"⟩ ∧
    Bitmap.record.decode (.array [.int 1, .int 2, .string "hill.png"]) = .ok ⟨1, 2, "hill.png"⟩ ∧
    (ObjectId.read paddedSeven).map ObjectId.value = .ok 7 ∧
    (CharId.read paddedSeven).map CharId.value = .ok 7 ∧
    (Bitmap.record.decode (.object (("width", .string paddedSeven) :: hillMembers))).map
      Bitmap.width = .ok 7 ∧
    (Bitmap.record.decode (.array [.int 1, .string paddedSeven, .string "hill.png"])).map
      Bitmap.height = .ok 7 ∧
    (∃ e, (ObjectId.read "-0").map ObjectId.value = .error e) ∧
    ∃ e, (Bitmap.record.decode (.object (("width", .string "-0") :: hillMembers))).map
      Bitmap.width = .error e := by
  have hseven : Spells paddedSeven 7 := ⟨[' ', '\n'], ['+', '0', '0', '7'], ['\u3000'], by decide, by decide,
    .signed (by decide) (List.all_eq_true.mp rfl), by decide⟩
  have hobject : Bitmap.record.decode (.object (("width", .int 1) :: hillMembers)) =
    .ok ⟨1, 2, "hill.png"⟩ := rfl
  have harray : Bitmap.record.decode (.array [.int 1, .int 2, .string "hill.png"]) =
    .ok ⟨1, 2, "hill.png"⟩ := rfl
  obtain ⟨hid, hchar, hwidth, hheight⟩ := words_read_alike
  have hmember := hwidth _ _ _ (.member [] hillMembers) hobject
  have hitem := hheight _ _ _ (.item [.int 1] [.string "hill.png"] rfl) harray
  refine ⟨hobject, harray, (hid.ok_iff _ _).mpr hseven, (hchar.ok_iff _ _).mpr hseven,
    (hmember.ok_iff _ _).mpr hseven, (hitem.ok_iff _ _).mpr hseven, ?_, ?_⟩
  · exact hid.foreign "-0" '-' (by decide) (by decide) (by decide) (by decide)
  · exact hmember.foreign "-0" '-' (by decide) (by decide) (by decide) (by decide)

end SceneReel
