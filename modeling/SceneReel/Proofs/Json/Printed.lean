import SceneReel.Json.Reader
import SceneReel.Proofs.Json.Scanned

/-!
Values whose text has all of them. On one line or indented, the text has the tokens of the value.
-/
namespace SceneReel.Json

section Values

/-- A value whose text has all of it, where `depth` containers enclose it: without faults and doubles,
its integers of 64 bits. -/
inductive Plain : Nat → Json → Prop
  | null (depth : Nat) : Plain depth .null
  | bool (depth : Nat) (b : Bool) : Plain depth (.bool b)
  | int (depth : Nat) {n : Int} (least : Int64.minValue.toInt ≤ n) (greatest : n < UInt64.size) :
      Plain depth (.int n)
  | string (depth : Nat) (s : String) : Plain depth (.string s)
  | array {depth : Nat} {vs : List Json} (room : depth < depthLimit)
      (items : ∀ v ∈ vs, Plain (depth + 1) v) : Plain depth (.array vs)
  | object {depth : Nat} {ms : List (String × Json)} (room : depth < depthLimit)
      (members : ∀ m ∈ ms, Plain (depth + 1) m.2) : Plain depth (.object ms)

@[simp] theorem plain_string (depth : Nat) (s : String) : Plain depth (.string s) :=
  .string depth s

@[simp] theorem plain_int {depth : Nat} {n : Int} :
    Plain depth (.int n) ↔ Int64.minValue.toInt ≤ n ∧ n < UInt64.size :=
  ⟨fun | .int _ least greatest => ⟨least, greatest⟩, fun h => .int depth h.1 h.2⟩

@[simp] theorem plain_array {depth : Nat} {vs : List Json} :
    Plain depth (.array vs) ↔ depth < depthLimit ∧ ∀ v ∈ vs, Plain (depth + 1) v :=
  ⟨fun | .array room items => ⟨room, items⟩, fun h => .array h.1 h.2⟩

@[simp] theorem plain_object {depth : Nat} {ms : List (String × Json)} :
    Plain depth (.object ms) ↔ depth < depthLimit ∧ ∀ m ∈ ms, Plain (depth + 1) m.2 :=
  ⟨fun | .object room members => ⟨room, members⟩, fun h => .object h.1 h.2⟩

theorem faultOfItems_eq_none {vs : List Json} (h : ∀ v ∈ vs, v.fault? = none) : faultOfItems vs = none := by
  induction vs with
  | nil => rfl
  | cons v vs ih =>
    obtain ⟨hv, hvs⟩ := List.forall_mem_cons.mp h
    rw [faultOfItems, hv, ih hvs]
    rfl

theorem faultOfMembers_eq_none {ms : List (String × Json)} (h : ∀ m ∈ ms, m.2.fault? = none) :
    faultOfMembers ms = none := by
  induction ms with
  | nil => rfl
  | cons m ms ih =>
    obtain ⟨hm, hms⟩ := List.forall_mem_cons.mp h
    rw [faultOfMembers, hm, ih hms]
    rfl

theorem Plain.isReadable {depth : Nat} {v : Json} (hv : Plain depth v) : v.isReadable = true := by
  have hnone : v.fault? = none := by
    induction hv with
    | null | bool | int | string => rfl
    | array _ _ ih => exact faultOfItems_eq_none ih
    | object _ _ ih =>
      rw [fault?, faultOfMembers_eq_none ih]
      rfl
  exact Option.isNone_iff_eq_none.mpr hnone

mutual

def tokens : Json → List Token
  | .string s => [.string (some s)]
  | .array vs => .openArray :: [.comma].intercalate (tokensOfItems vs) ++ [.closeArray]
  | .object ms _ => .openObject :: [.comma].intercalate (tokensOfMembers ms) ++ [.closeObject]
  | .gap _ => []
  | .null => [.atom .null]
  | .bool b => [.atom (.bool b)]
  | .int n => [.atom (.int n)]
  | .float x => [.atom (.float x)]

def tokensOfItems : List Json → List (List Token)
  | [] => []
  | v :: vs => tokens v :: tokensOfItems vs

def tokensOfMembers : List (String × Json) → List (List Token)
  | [] => []
  | (key, v) :: ms => (.string (some key) :: .colon :: tokens v) :: tokensOfMembers ms

end

theorem tokensOfItems_eq_map (vs : List Json) : tokensOfItems vs = vs.map tokens := by
  induction vs with
  | nil => rfl
  | cons v vs ih => rw [tokensOfItems, ih, List.map_cons]

def tokensOfMember (m : String × Json) : List Token :=
  .string (some m.1) :: .colon :: tokens m.2

theorem tokensOfMembers_eq_map (ms : List (String × Json)) :
    tokensOfMembers ms = ms.map tokensOfMember := by
  induction ms with
  | nil => rfl
  | cons m ms ih => rw [tokensOfMembers, ih, List.map_cons, tokensOfMember]

end Values

section Parts

theorem ScansAs.blank {text : List Char} {ts : List Token} (h : ScansAs text ts) : ScansAs (' ' :: text) ts :=
  fun rest us hrest hus => .blank rfl (h rest us hrest hus)

theorem ScansAs.newLine (level : Nat) {text : List Char} {ts : List Token} (h : ScansAs text ts) :
    ScansAs ((newLine level).toList ++ text) ts := by
  intro rest us hrest hus
  rw [List.append_assoc]
  exact .newLine level (h rest us hrest hus)

theorem ScansAs.member (key : String) {v : Json} {text : List Char} (h : ScansAs text (tokens v)) :
    ScansAs ((quote key).toList ++ ':' :: text) (tokensOfMember (key, v)) := by
  intro rest us hrest hus
  rw [List.append_assoc]
  exact .quote key (.mark rfl rfl (h rest us hrest hus))

variable {rest : List Char} {us : List Token}

theorem Scans.array {text : Json → List Char} {vs : List Json} (hvs : ∀ v ∈ vs, ScansAs (text v) (tokens v))
    (hrest : Ends rest) (h : Scans rest (.closeArray :: us)) :
    Scans ('[' :: ([','].intercalate (vs.map text) ++ rest)) (tokens (.array vs) ++ us) := by
  have hitems := Scans.intercalate hvs rest hrest h
  simpa [tokens, tokensOfItems_eq_map] using Scans.mark rfl rfl hitems

theorem Scans.object {text : String × Json → List Char} {ms : List (String × Json)}
    (hms : ∀ m ∈ ms, ScansAs (text m) (tokensOfMember m))
    (hrest : Ends rest) (h : Scans rest (.closeObject :: us)) :
    Scans ('\x7b' :: ([','].intercalate (ms.map text) ++ rest)) (tokens (.object ms) ++ us) := by
  have hmembers := Scans.intercalate hms rest hrest h
  simpa [tokens, tokensOfMembers_eq_map] using Scans.mark rfl rfl hmembers

/-- A printer that puts a comma between any two parts. -/
theorem toList_eq_intercalate {α : Type} (join : List α → String) (part : α → String) (hnil : join [] = "")
    (hone : ∀ x, join [x] = part x) (hmore : ∀ x y xs, join (x :: y :: xs) = part x ++ "," ++ join (y :: xs))
    (xs : List α) : (join xs).toList = [','].intercalate (xs.map fun x => (part x).toList) := by
  induction xs with
  | nil => rw [hnil]; rfl
  | cons x xs ih =>
    cases xs with
    | nil => rw [hone, List.map_singleton, List.intercalate_singleton]
    | cons y xs =>
      simp only [hmore, String.toList_append, ih, List.map_cons, List.intercalate_cons_cons]
      rfl

end Parts

section OneLine

theorem toList_compactItems (vs : List Json) :
    (compactItems vs).toList = [','].intercalate (vs.map fun v => (compact v).toList) :=
  toList_eq_intercalate compactItems compact rfl (fun _ => rfl) (fun _ _ _ => rfl) vs

theorem toList_compactMembers (ms : List (String × Json)) : (compactMembers ms).toList =
    [','].intercalate (ms.map fun m => (quote m.1).toList ++ ':' :: (compact m.2).toList) := by
  have hjoin := toList_eq_intercalate compactMembers (fun m => quote m.1 ++ ":" ++ compact m.2)
    rfl (fun _ => rfl) (fun _ _ _ => rfl) ms
  simpa using hjoin

/-- The text of a plain value on one line has the tokens of the value. -/
theorem Plain.scansAs_compact {depth : Nat} {v : Json} (hv : Plain depth v) :
    ScansAs (compact v).toList (tokens v) := by
  induction hv with
  | null => exact fun rest us _ h => .cons rfl rfl (by simp; omega) h
  | bool _ b =>
    intro rest us _ h
    cases b <;> exact .cons rfl rfl (by simp; omega) h
  | int _ least greatest => exact fun rest us hrest h => .int least greatest hrest h
  | string _ s => exact fun rest us _ h => .quote s h
  | array _ _ ih =>
    intro rest us hrest h
    have hclose : Scans (']' :: rest) (.closeArray :: us) := .mark rfl rfl h
    simpa [compact, toList_compactItems] using Scans.array ih (by simp [Ends]) hclose
  | object _ _ ih =>
    intro rest us hrest h
    have hclose : Scans ('\x7d' :: rest) (.closeObject :: us) := .mark rfl rfl h
    have hall := Scans.object (fun m hm => (ih m hm).member m.1) (by simp [Ends]) hclose
    simpa [compact, toList_compactMembers] using hall

end OneLine

section Indented

variable (level : Nat)

theorem toList_prettyItems (vs : List Json) : (prettyItems level vs).toList =
    [','].intercalate (vs.map fun v => (newLine level).toList ++ (pretty level v).toList) := by
  have hjoin := toList_eq_intercalate (prettyItems level) (fun v => newLine level ++ pretty level v)
    rfl (fun _ => rfl) (fun _ _ _ => rfl) vs
  simpa using hjoin

theorem toList_prettyMembers (ms : List (String × Json)) : (prettyMembers level ms).toList =
    [','].intercalate (ms.map fun m =>
      (newLine level).toList ++ ((quote m.1).toList ++ ':' :: ' ' :: (pretty level m.2).toList)) := by
  have hjoin := toList_eq_intercalate (prettyMembers level)
    (fun m => newLine level ++ quote m.1 ++ ": " ++ pretty level m.2)
    rfl (fun _ => rfl) (fun _ _ _ => rfl) ms
  simpa using hjoin

theorem Plain.scansAs_pretty {depth : Nat} {v : Json} (hv : Plain depth v) :
    ScansAs (pretty level v).toList (tokens v) := by
  induction hv generalizing level with
  | null depth => exact (Plain.null depth).scansAs_compact
  | bool depth b => exact (Plain.bool depth b).scansAs_compact
  | int depth least greatest => exact (Plain.int depth least greatest).scansAs_compact
  | string depth s => exact (Plain.string depth s).scansAs_compact
  | @array _ vs _ _ ih =>
    intro rest us hrest h
    have hclose : Scans (']' :: rest) (.closeArray :: us) := .mark rfl rfl h
    cases vs with
    | nil =>
      have hall : Scans ('[' :: ']' :: rest) (.openArray :: .closeArray :: us) := .mark rfl rfl hclose
      simpa [pretty, tokens, tokensOfItems] using hall
    | cons v vs =>
      have hall := Scans.array (fun w hw => (ih w hw (level + 1)).newLine (level + 1))
        (by simp [Ends, newLine]) (hclose.newLine level)
      simpa [pretty, toList_prettyItems] using hall
  | @object _ ms _ _ ih =>
    intro rest us hrest h
    have hclose : Scans ('\x7d' :: rest) (.closeObject :: us) := .mark rfl rfl h
    cases ms with
    | nil =>
      have hall : Scans ('\x7b' :: '\x7d' :: rest) (.openObject :: .closeObject :: us) := .mark rfl rfl hclose
      simpa [pretty, tokens, tokensOfMembers] using hall
    | cons m ms =>
      have hall := Scans.object
        (fun n hn => ((ih n hn (level + 1)).blank.member n.1).newLine (level + 1))
        (by simp [Ends, newLine]) (hclose.newLine level)
      simpa [pretty, toList_prettyMembers] using hall

end Indented

end SceneReel.Json
