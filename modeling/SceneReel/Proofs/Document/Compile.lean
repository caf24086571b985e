import Mathlib.Data.List.Dedup
import SceneReel.Document

/-!
What compiling a document comes to. The faults of a document stand in an order, and the first of them is what
compiling fails with. Without faults, each table holds what was entered last under an id, and each id once.
-/
namespace SceneReel

open Asset Descriptor

section Faults

variable {ε α β : Type} {e : ε} {a b : α}

/-- A result where there are no faults, and else the first of them. -/
def unlessFaulty (faults : List ε) (a : α) : Except ε α :=
  match faults with
  | [] => .ok a
  | e :: _ => .error e

theorem unlessFaulty_eq_ok_iff {faults : List ε} :
    unlessFaulty faults a = .ok b ↔ faults = [] ∧ a = b := by
  cases faults <;> simp [unlessFaulty]

theorem unlessFaulty_eq_error_iff {faults : List ε} :
    unlessFaulty faults a = .error e ↔ faults.head? = some e := by
  cases faults <;> simp [unlessFaulty]

/-- The faults of one step come before those of the next. -/
theorem unlessFaulty_bind (faults more : List ε) (a : α) (f : α → β) :
    (unlessFaulty faults a >>= fun x => unlessFaulty more (f x)) = unlessFaulty (faults ++ more) (f a) := by
  cases faults <;> rfl

end Faults

namespace Catalog

variable {α : Type}

def insertAll (c : Catalog α) (entries : List (CharId × α)) : Catalog α :=
  entries.foldl (fun c e => c.insert e.1 e.2) c

/-- What was set last under an id is what it has. -/
theorem get?_insertAll (c : Catalog α) (entries : List (CharId × α)) (id : CharId) :
    (c.insertAll entries).get? id = (entries.reverse.lookup id).or (c.get? id) := by
  induction entries generalizing c with
  | nil => rfl
  | cons e entries ih =>
    have hlast : (entries.reverse ++ [e]).lookup id =
        (entries.reverse.lookup id).or (if id = e.1 then some e.2 else none) := by
      rw [List.lookup_append, lookup_cons_entry]
      rfl
    rw [insertAll, List.foldl_cons, ← insertAll, ih, get?_insert, List.reverse_cons, hlast]
    by_cases hid : id = e.1 <;> simp [hid]

theorem get?_insertAll_empty (entries : List (CharId × α)) (id : CharId) :
    (insertAll {} entries).get? id = entries.reverse.lookup id :=
  (get?_insertAll {} entries id).trans Option.or_none

theorem nodup_ids (c : Catalog α) : (c.entries.map Prod.fst).Nodup := by
  rw [List.Nodup, List.pairwise_map]
  refine c.ascending.imp fun {x y} hlt he => ?_
  rw [he] at hlt
  exact UInt32.lt_irrefl _ hlt

/-- The size of a catalog is the number of different ids that were set. -/
theorem size_insertAll (entries : List (CharId × α)) :
    (insertAll {} entries).size = (entries.map Prod.fst).dedup.length := by
  have hids : ((insertAll {} entries).entries.map Prod.fst).Perm (entries.map Prod.fst).dedup := by
    rw [List.perm_ext_iff_of_nodup (nodup_ids _) (List.nodup_dedup _)]
    intro id
    have hget := congrArg Option.isSome (get?_insertAll_empty entries id)
    rw [get?, Bool.eq_iff_iff, List.lookup_isSome_iff, List.lookup_isSome_iff] at hget
    simpa using hget
  rw [size, ← hids.length_eq, List.length_map]

end Catalog

namespace Descriptor

variable {α : Type}

/-- The values of entries under the ids that their texts denote, in order. -/
def denoted (es : List (Entry α)) : List (CharId × α) :=
  es.filterMap fun e => (CharId.read e.charid).toOption.map (·, e.asset)

def entryFaults (es : List (Entry α)) : List DocumentError :=
  es.filterMap fun e =>
    match CharId.read e.charid with
    | .error cause => some (.id cause)
    | .ok _ => none

/-- The compiled timelines under the ids that their texts denote, in order, without the main timeline. -/
def nested (ts : List TimelineDef) : List (CharId × Timeline) :=
  ts.filterMap fun t =>
    match t.charid, t.compile with
    | some text, .ok timeline => (CharId.read text).toOption.map (·, timeline)
    | _, _ => none

def mainOf (ts : List TimelineDef) : Option Timeline :=
  (ts.find? (·.charid.isNone)).bind (·.compile.toOption)

def TimelineDef.faults (t : TimelineDef) : List DocumentError :=
  match t.compile with
  | .error e => [.timeline t.charid e]
  | .ok _ => []

/-- The fault of a timeline in its place: a text that denotes no id, or a main timeline after another. -/
def TimelineDef.placeFaults (hasMain : Bool) (t : TimelineDef) : List DocumentError :=
  match t.charid with
  | none => if hasMain then [.secondMain] else []
  | some text =>
    match CharId.read text with
    | .error cause => [.id cause]
    | .ok _ => []

/-- The faults of timelines, those of each in itself before those in its place. -/
def timelineFaults (hasMain : Bool) : List TimelineDef → List DocumentError
  | [] => []
  | t :: ts => t.faults ++ t.placeFaults hasMain ++ timelineFaults (hasMain || t.charid.isNone) ts

def DocumentDef.faults (d : DocumentDef) : List DocumentError :=
  entryFaults d.shapes ++ entryFaults d.bitmaps ++ entryFaults d.sounds ++ entryFaults d.texts ++
    timelineFaults false d.timelines

theorem entryFaults_eq_nil_iff {es : List (Entry α)} :
    entryFaults es = [] ↔ ∀ e ∈ es, ∃ id, CharId.read e.charid = .ok id := by
  unfold entryFaults
  rw [List.filterMap_eq_nil_iff]
  refine forall₂_congr fun e _ => ?_
  cases CharId.read e.charid <;> simp

theorem TimelineDef.faults_eq_nil_iff {t : TimelineDef} :
    t.faults = [] ↔ ∃ timeline, t.compile = .ok timeline := by
  unfold faults
  cases t.compile <;> simp

theorem TimelineDef.placeFaults_eq_nil_iff {t : TimelineDef} {hasMain : Bool} :
    t.placeFaults hasMain = [] ↔
      (∀ text, t.charid = some text → ∃ id, CharId.read text = .ok id) ∧
      (t.charid.isNone → hasMain = false) := by
  unfold placeFaults
  cases t.charid with
  | none => cases hasMain <;> simp
  | some text => cases hid : CharId.read text <;> simp [hid]

theorem timelineFaults_eq_nil_iff {ts : List TimelineDef} {hasMain : Bool} :
    timelineFaults hasMain ts = [] ↔
      (∀ t ∈ ts, ∃ timeline, t.compile = .ok timeline) ∧
      (∀ t ∈ ts, ∀ text, t.charid = some text → ∃ id, CharId.read text = .ok id) ∧
      ts.countP (·.charid.isNone) + (if hasMain then 1 else 0) ≤ 1 := by
  induction ts generalizing hasMain with
  | nil => cases hasMain <;> simp [timelineFaults]
  | cons t ts ih =>
    rw [timelineFaults, List.append_eq_nil_iff, List.append_eq_nil_iff, ih,
      TimelineDef.faults_eq_nil_iff, TimelineDef.placeFaults_eq_nil_iff, List.forall_mem_cons,
      List.forall_mem_cons, List.countP_cons]
    have hmains : ((t.charid.isNone → hasMain = false) ∧
          ts.countP (·.charid.isNone) + (if hasMain || t.charid.isNone then 1 else 0) ≤ 1) ↔
        ts.countP (·.charid.isNone) + (if t.charid.isNone then 1 else 0) +
          (if hasMain then 1 else 0) ≤ 1 := by
      cases t.charid.isNone <;> cases hasMain <;> simp
    rw [← hmains]
    tauto

end Descriptor

namespace Document

theorem enterAll_eq {α : Type} (c : Catalog α) (es : List (Entry α)) :
    enterAll c es = unlessFaulty (entryFaults es) (c.insertAll (denoted es)) := by
  induction es generalizing c with
  | nil => rfl
  | cons e es ih =>
    rw [enterAll]
    cases hid : CharId.read e.charid with
    | error cause => simp [entryFaults, hid, unlessFaulty]
    | ok id =>
      dsimp only
      rw [ih]
      simp [entryFaults, denoted, hid, Catalog.insertAll, Except.toOption]

theorem addTimelines_eq (d : Document) (ts : List TimelineDef) :
    d.addTimelines ts = unlessFaulty (timelineFaults d.main.isSome ts)
      { library := { d.library with timelines := d.library.timelines.insertAll (nested ts) }
        main := d.main.or (mainOf ts) } := by
  induction ts generalizing d with
  | nil =>
    obtain ⟨library, main⟩ := d
    cases main <;> rfl
  | cons t ts ih =>
    rw [addTimelines, timelineFaults]
    cases ht : t.compile with
    | error e => simp [TimelineDef.faults, ht, unlessFaulty]
    | ok timeline =>
      have hfaults : t.faults = [] := by simp [TimelineDef.faults, ht]
      rw [hfaults, List.nil_append]
      cases hc : t.charid with
      | none =>
        cases hmain : d.main with
        | some first => simp [TimelineDef.placeFaults, hc, unlessFaulty]
        | none =>
          simp only [Option.isSome_none, Bool.false_eq_true, if_false, ih]
          simp [TimelineDef.placeFaults, hc, nested, mainOf, ht, Except.toOption]
      | some text =>
        cases hid : CharId.read text with
        | error cause => simp [TimelineDef.placeFaults, hc, hid, unlessFaulty]
        | ok id =>
          simp only [ih]
          simp [TimelineDef.placeFaults, hc, hid, nested, mainOf, ht, Except.toOption,
            Catalog.insertAll]

theorem compile_eq (d : DocumentDef) :
    compile d = unlessFaulty d.faults
      { library := {
          shapes := Catalog.insertAll {} (denoted d.shapes)
          bitmaps := Catalog.insertAll {} (denoted d.bitmaps)
          texts := Catalog.insertAll {} (denoted d.texts)
          sounds := Catalog.insertAll {} (denoted d.sounds)
          timelines := Catalog.insertAll {} (nested d.timelines) }
        main := mainOf d.timelines } := by
  simp only [compile, enterAll_eq, addTimelines_eq, unlessFaulty_bind, Option.isSome_none]
  simp only [DocumentDef.faults, List.append_assoc]
  rfl

/-- A document compiles just if it has no faults; the last entry of an id counts, and the first fault is
reported. -/
theorem compile_last_entries_or_first_fault (d : DocumentDef) :
    ((∃ doc, compile d = .ok doc) ↔
      (∀ e ∈ d.shapes, ∃ id, CharId.read e.charid = .ok id) ∧
      (∀ e ∈ d.bitmaps, ∃ id, CharId.read e.charid = .ok id) ∧
      (∀ e ∈ d.sounds, ∃ id, CharId.read e.charid = .ok id) ∧
      (∀ e ∈ d.texts, ∃ id, CharId.read e.charid = .ok id) ∧
      (∀ t ∈ d.timelines, ∀ text, t.charid = some text → ∃ id, CharId.read text = .ok id) ∧
      (∀ t ∈ d.timelines, ∃ timeline, t.compile = .ok timeline) ∧
      d.timelines.countP (·.charid.isNone) ≤ 1) ∧
    (∀ doc, compile d = .ok doc →
      (∀ char, doc.library.resolve char =
        (((denoted d.shapes).reverse.lookup char).map .shape <|>
          ((denoted d.bitmaps).reverse.lookup char).map .bitmap <|>
          ((denoted d.texts).reverse.lookup char).map .text <|>
          ((nested d.timelines).reverse.lookup char).map .timeline)) ∧
      (∀ char, doc.library.sounds.get? char = (denoted d.sounds).reverse.lookup char) ∧
      doc.library.counts =
        [((denoted d.shapes).map Prod.fst).dedup.length,
          ((denoted d.bitmaps).map Prod.fst).dedup.length,
          ((denoted d.texts).map Prod.fst).dedup.length,
          ((denoted d.sounds).map Prod.fst).dedup.length,
          ((nested d.timelines).map Prod.fst).dedup.length] ∧
      doc.main = mainOf d.timelines) ∧
    ∀ e, compile d = .error e ↔ d.faults.head? = some e := by
  rw [compile_eq]
  refine ⟨?_, fun doc hdoc => ?_, fun e => unlessFaulty_eq_error_iff⟩
  · have hok : ∀ {doc : Document}, (∃ doc', unlessFaulty d.faults doc = .ok doc') ↔ d.faults = [] := by
      simp [unlessFaulty_eq_ok_iff]
    rw [hok, DocumentDef.faults]
    simp only [List.append_eq_nil_iff, entryFaults_eq_nil_iff, timelineFaults_eq_nil_iff]
    tauto
  · obtain ⟨-, rfl⟩ := unlessFaulty_eq_ok_iff.mp hdoc
    refine ⟨fun char => ?_, fun char => Catalog.get?_insertAll_empty _ char, ?_, rfl⟩
    · simp only [Library.resolve, Catalog.get?_insertAll_empty]
    · simp only [Library.counts, Catalog.size_insertAll]

def respelledIds : DocumentDef where
  shapes := [⟨"7", {}⟩, ⟨" +007 ", { paths := [{}] }⟩]
  bitmaps := [⟨"07", {}⟩, ⟨"8", { width := 1 }⟩]
  sounds := [⟨"7", { soundPath := "drum" }⟩]
  timelines := [{ charid := some "9" }, {}, { charid := some "+9", frames := [{}] }]

/-- The last spelling counts, shapes come before bitmaps, and a second main timeline comes after a text. -/
theorem respelledIds_compile :
    (∃ doc, compile respelledIds = .ok doc ∧
      doc.library.resolve ⟨7⟩ = some (.shape { paths := [{}] }) ∧
      doc.library.resolve ⟨9⟩ = some (.timeline ⟨[{}]⟩) ∧
      doc.library.counts = [1, 2, 0, 1, 1] ∧ doc.main = some {}) ∧
    compile { respelledIds with texts := [⟨"seven", {}⟩], timelines := [{}, {}] } =
      .error (.id ⟨.char, "seven", .invalidDigit⟩) := by
  obtain ⟨doc, hdoc⟩ : ∃ doc, compile respelledIds = .ok doc := ⟨_, rfl⟩
  obtain ⟨hresolve, -, hcounts, hmain⟩ :=
    (compile_last_entries_or_first_fault respelledIds).2.1 doc hdoc
  refine ⟨⟨doc, hdoc, (hresolve ⟨7⟩).trans rfl, (hresolve ⟨9⟩).trans rfl, hcounts.trans rfl,
    hmain.trans rfl⟩, ?_⟩
  exact ((compile_last_entries_or_first_fault _).2.2 _).mpr rfl

end Document

end SceneReel
