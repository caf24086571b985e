import SceneReel.Geometry.Matrix
import SceneReel.Proofs.Fallible

/-!
The texts that spell matrices: six finite numbers between commas. Any other text has a fault, and the first
one in the order of the text is what reading it fails with.
-/
namespace SceneReel

namespace Geometry

open Decimal Text

def IsComponent (p : List Char) (x : Float) : Prop :=
  readFloat (trim p) = .ok x ∧ x.isFinite = true

/-- The piece is at fault as the component at an index. -/
inductive Spoils (index : Nat) (p : List Char) : MatrixFault → Prop
  | unreadable {cause : ReadError} (h : readFloat (trim p) = .error cause) :
      Spoils index p (.unreadable index cause)
  | notFinite {x : Float} (h : readFloat (trim p) = .ok x) (hx : x.isFinite = false) :
      Spoils index p (.notFinite index)

/-- The fault of a text in these pieces; how many there are only counts where the first six are in order.
-/
inductive Fails (ps : List (List Char)) : MatrixFault → Prop
  | component {before after : List (List Char)} {p : List Char} {fault : MatrixFault}
      (hps : ps = before ++ p :: after) (hlt : before.length < 6)
      (hbefore : ∀ q ∈ before, ∃ x, IsComponent q x) (hp : Spoils before.length p fault) : Fails ps fault
  | tooMany (hlt : 6 < ps.length) (hfirst : ∀ p ∈ ps.take 6, ∃ x, IsComponent p x) : Fails ps .tooMany
  | count (hlt : ps.length < 6) (hall : ∀ p ∈ ps, ∃ x, IsComponent p x) : Fails ps (.count ps.length)

theorem pieces_eq_splitOn (cs : List Char) : pieces cs = cs.splitOn ',' := by
  induction cs with
  | nil => rfl
  | cons c cs ih =>
    rw [pieces, List.splitOn, List.splitOnP_cons_eq_if_modifyHead, ← List.splitOn, ← ih]
    by_cases hc : c = ','
    · simp [hc]
    · simp only [hc, if_false, beq_iff_eq]
      cases hps : pieces cs with
      | nil => exact absurd hps (pieces_ne_nil cs)
      | cons p ps => rfl

section Components

variable {ps rest : List (List Char)} {p : List Char} {xs : List Float} {index : Nat} {fault : MatrixFault}

theorem forall₂_isComponent_iff : List.Forall₂ IsComponent ps xs ↔
    ps.map (fun p => readFloat (trim p)) = xs.map .ok ∧ ∀ x ∈ xs, x.isFinite = true := by
  induction ps generalizing xs with
  | nil => cases xs <;> simp
  | cons p ps ih =>
    cases xs with
    | nil => simp
    | cons x xs =>
      rw [List.forall₂_cons, ih, IsComponent, List.map_cons, List.map_cons, List.cons.injEq,
        List.forall_mem_cons]
      tauto

theorem component_or_spoils (index : Nat) (p : List Char) :
    (∃ x, IsComponent p x) ∨ ∃ fault, Spoils index p fault := by
  cases hp : readFloat (trim p) with
  | error cause => exact .inr ⟨_, .unreadable hp⟩
  | ok x =>
    cases hx : x.isFinite with
    | false => exact .inr ⟨_, .notFinite hp hx⟩
    | true => exact .inl ⟨x, hp, hx⟩

/-- Pieces in order are read, and what comes behind them decides. -/
theorem readComponents_append (h : List.Forall₂ IsComponent ps xs) (hle : index + ps.length ≤ 6) :
    readComponents index (ps ++ rest) =
      (readComponents (index + ps.length) rest).map (xs ++ ·) := by
  induction h generalizing index with
  | nil =>
    show readComponents index rest = (readComponents index rest).map ([] ++ ·)
    cases readComponents index rest <;> rfl
  | @cons p x ps xs hp hps ih =>
    rw [List.length_cons] at hle ⊢
    have hindex : index ≠ 6 := by omega
    rw [List.cons_append, readComponents, if_neg hindex, hp.1]
    dsimp only
    rw [if_pos hp.2, ih (by omega), Nat.add_right_comm, Nat.add_assoc]
    cases readComponents (index + (ps.length + 1)) rest <;> rfl

theorem readComponents_of_components (h : List.Forall₂ IsComponent ps xs) (hle : ps.length ≤ 6) :
    readComponents 0 ps = .ok xs := by
  have hread : readComponents 0 (ps ++ []) = (readComponents (0 + ps.length) []).map (xs ++ ·) :=
    readComponents_append h (by omega)
  rw [List.append_nil] at hread
  simpa [readComponents, Except.map] using hread

theorem readComponents_of_spoils (h : Spoils index p fault) (hlt : index < 6) :
    readComponents index (p :: rest) = .error fault := by
  have hindex : index ≠ 6 := by omega
  rw [readComponents, if_neg hindex]
  cases h with
  | unreadable h => rw [h]
  | notFinite h hx =>
    rw [h]
    simp [hx]

theorem components_or_fails (ps : List (List Char)) :
    (∃ xs, xs.length = 6 ∧ List.Forall₂ IsComponent ps xs) ∨ ∃ fault, Fails ps fault := by
  classical
  cases hfirst : ps.find? fun p => ¬ ∃ x, IsComponent p x with
  | none =>
    have hall : ∀ p ∈ ps, ∃ x, IsComponent p x := by simpa using hfirst
    rcases Nat.lt_trichotomy ps.length 6 with hlt | hsix | hlt
    · exact .inr ⟨_, .count hlt hall⟩
    · obtain ⟨xs, hxs⟩ := exists_forall₂_iff.mpr hall
      exact .inl ⟨xs, hxs.length_eq ▸ hsix, hxs⟩
    · exact .inr ⟨_, .tooMany hlt fun p hp => hall p (List.mem_of_mem_take hp)⟩
  | some p =>
    obtain ⟨hp, before, after, rfl, hbefore⟩ := List.find?_eq_some_iff_append.mp hfirst
    have hgood : ∀ q ∈ before, ∃ x, IsComponent q x := by simpa using hbefore
    by_cases hlt : before.length < 6
    · rcases component_or_spoils before.length p with hx | ⟨fault, hfault⟩
      · exact absurd hx (of_decide_eq_true hp)
      · exact .inr ⟨fault, .component rfl hlt hgood hfault⟩
    · refine .inr ⟨_, .tooMany ?_ fun q hq => ?_⟩
      · rw [List.length_append, List.length_cons]
        omega
      · rw [List.take_append_of_le_length (by omega)] at hq
        exact hgood q (List.mem_of_mem_take hq)

theorem ofList_of_length_ne (h : xs.length ≠ 6) : Matrix.ofList xs = .error (.count xs.length) := by
  unfold Matrix.ofList
  split
  · exact absurd rfl h
  · rfl

theorem exists_toList_eq (h : xs.length = 6) : ∃ m, Matrix.ofList xs = .ok m ∧ m.toList = xs := by
  match xs, h with
  | [a, b, c, d, e, f], _ => exact ⟨⟨a, b, c, d, e, f⟩, rfl, rfl⟩

def ofPieces (ps : List (List Char)) : Except MatrixFault Matrix :=
  (readComponents 0 ps).bind Matrix.ofList

theorem ofPieces_of_components (h : List.Forall₂ IsComponent ps xs) (hsix : xs.length = 6) :
    ∃ m, ofPieces ps = .ok m ∧ m.toList = xs := by
  obtain ⟨m, hm, hxs⟩ := exists_toList_eq hsix
  refine ⟨m, ?_, hxs⟩
  rw [ofPieces, readComponents_of_components h (by rw [h.length_eq]; omega)]
  exact hm

theorem ofPieces_of_fails (h : Fails ps fault) : ofPieces ps = .error fault := by
  cases h with
  | component hps hlt hbefore hp =>
    obtain ⟨xs, hxs⟩ := exists_forall₂_iff.mpr hbefore
    rw [ofPieces, hps, readComponents_append hxs (by omega), Nat.zero_add, readComponents_of_spoils hp hlt]
    rfl
  | tooMany hlt hfirst =>
    obtain ⟨xs, hxs⟩ := exists_forall₂_iff.mpr hfirst
    have hsix : (ps.take 6).length = 6 := List.length_take_of_le (Nat.le_of_lt hlt)
    obtain ⟨p, rest, hrest⟩ := List.exists_cons_of_length_pos (l := ps.drop 6) (by rw [List.length_drop]; omega)
    rw [ofPieces, ← List.take_append_drop 6 ps, readComponents_append hxs (by omega), hsix, hrest]
    rfl
  | count hlt hall =>
    obtain ⟨xs, hxs⟩ := exists_forall₂_iff.mpr hall
    have hlength := hxs.length_eq
    rw [ofPieces, readComponents_of_components hxs (by omega), hlength]
    exact ofList_of_length_ne (by omega)

theorem ofPieces_eq_ok_iff {m : Matrix} : ofPieces ps = .ok m ↔ List.Forall₂ IsComponent ps m.toList := by
  constructor
  · intro h
    rcases components_or_fails ps with ⟨xs, hsix, hxs⟩ | ⟨fault, hfault⟩
    · obtain ⟨m', hm', rfl⟩ := ofPieces_of_components hxs hsix
      cases h.symm.trans hm'
      exact hxs
    · cases h.symm.trans (ofPieces_of_fails hfault)
  · intro h
    obtain ⟨m', hm', hlist⟩ := ofPieces_of_components h rfl
    obtain rfl : m' = m := by
      cases m'
      cases m
      simpa [Matrix.toList] using hlist
    exact hm'

theorem ofPieces_eq_error_iff : ofPieces ps = .error fault ↔ Fails ps fault := by
  refine ⟨fun h => ?_, ofPieces_of_fails⟩
  rcases components_or_fails ps with ⟨xs, hsix, hxs⟩ | ⟨fault', hfault⟩
  · obtain ⟨m, hm, -⟩ := ofPieces_of_components hxs hsix
    cases h.symm.trans hm
  · cases h.symm.trans (ofPieces_of_fails hfault)
    exact hfault

end Components

section Filling

variable {α : Type}

def writeAt? (xs : List α) (i : Nat) (x : α) : Option (List α) :=
  if i < xs.length then some (xs.set i x) else none

/-- Reads pieces into the list of coefficients, each at its position; there is no result for a position
outside. -/
def fillFrom? (n : Nat) (coeffs : List Float) :
    List (List Char) → Option (Except MatrixFault (Nat × List Float))
  | [] => some (.ok (n, coeffs))
  | p :: ps =>
    if n = coeffs.length then some (.error .tooMany)
    else
      match readFloat (trim p) with
      | .error cause => some (.error (.unreadable n cause))
      | .ok x =>
        if x.isFinite then (writeAt? coeffs n x).bind fun coeffs => fillFrom? (n + 1) coeffs ps
        else some (.error (.notFinite n))

def Matrix.fill? (s : String) : Option (Except MatrixError Matrix) :=
  (fillFrom? 0 (List.replicate 6 0) (s.toList.splitOn ',')).map fun filled =>
    (filled.bind fun (n, coeffs) =>
      if n = coeffs.length then Matrix.ofList coeffs else .error (.count n)).mapError (⟨s, ·⟩)

theorem writeAt?_append (before after : List α) (x y : α) :
    writeAt? (before ++ y :: after) before.length x = some (before ++ x :: after) := by
  simp [writeAt?]

/-- No position outside the list is ever written to. -/
theorem fillFrom?_append (done rest : List Float) (hsix : done.length + rest.length = 6)
    (ps : List (List Char)) :
    fillFrom? done.length (done ++ rest) ps =
      some ((readComponents done.length ps).map fun xs =>
        (done.length + xs.length, done ++ xs ++ rest.drop xs.length)) := by
  induction ps generalizing done rest with
  | nil => simp [fillFrom?, readComponents, Except.map]
  | cons p ps ih =>
    rw [fillFrom?, readComponents, List.length_append, hsix]
    cases rest with
    | nil =>
      have hdone : done.length = 6 := hsix
      rw [if_pos hdone, if_pos hdone]
      rfl
    | cons y rest =>
      rw [List.length_cons] at hsix
      have hindex : done.length ≠ 6 := by omega
      rw [if_neg hindex, if_neg hindex]
      cases readFloat (trim p) with
      | error cause => rfl
      | ok x =>
        dsimp only
        by_cases hx : x.isFinite = true
        · have hnext := ih (done ++ [x]) rest (by rw [List.length_append, List.length_singleton]; omega)
          rw [if_pos hx, if_pos hx, writeAt?_append, Option.bind_some]
          rw [List.length_append, List.length_singleton, List.append_assoc, List.singleton_append] at hnext
          rw [hnext]
          cases readComponents (done.length + 1) ps with
          | error fault => rfl
          | ok xs => simp [Except.map, Nat.add_right_comm, Nat.add_assoc]
        · rw [if_neg hx, if_neg hx]
          rfl

theorem Matrix.fill?_eq (s : String) : Matrix.fill? s = some (Matrix.read s) := by
  have hfill := fillFrom?_append [] (List.replicate 6 0) rfl (s.toList.splitOn ',')
  rw [List.nil_append, List.length_nil] at hfill
  rw [fill?, Matrix.read, hfill, pieces_eq_splitOn]
  cases readComponents 0 (s.toList.splitOn ',') with
  | error fault => rfl
  | ok xs =>
    simp only [Except.map, Option.map_some, Except.bind, List.nil_append, Nat.zero_add]
    by_cases hle : 6 ≤ xs.length
    · have hnone : (List.replicate 6 (0 : Float)).drop xs.length = [] :=
        List.drop_eq_nil_of_le (by rw [List.length_replicate]; exact hle)
      rw [hnone, List.append_nil, if_pos rfl]
    · have hne : xs.length ≠ (xs ++ (List.replicate 6 (0 : Float)).drop xs.length).length := by
        simp
        omega
      rw [if_neg hne, ofList_of_length_ne (by omega)]

end Filling

namespace Matrix

theorem read_eq_ofPieces (s : String) :
    Matrix.read s = (ofPieces (s.toList.splitOn ',')).mapError (⟨s, ·⟩) := by
  rw [← pieces_eq_splitOn]
  rfl

variable {s : String}

theorem read_eq_ok_iff {m : Matrix} :
    Matrix.read s = .ok m ↔ List.Forall₂ IsComponent (s.toList.splitOn ',') m.toList := by
  rw [← ofPieces_eq_ok_iff, read_eq_ofPieces, mapError_eq_ok_iff]

theorem read_eq_error_iff {e : MatrixError} :
    Matrix.read s = .error e ↔ e.text = s ∧ Fails (s.toList.splitOn ',') e.fault := by
  obtain ⟨text, fault⟩ := e
  rw [← ofPieces_eq_error_iff, read_eq_ofPieces, mapError_eq_error_iff]
  simp [eq_comm, and_comm]

/-- A text spells a matrix just if its pieces are six finite numbers; otherwise the first fault is
reported. -/
theorem read_six_finite_or_first_fault (s : String) :
    ((∃ m, Matrix.read s = .ok m) ↔ (s.toList.splitOn ',').length = 6 ∧
      ∀ p ∈ s.toList.splitOn ',', ∃ x, readFloat (trim p) = .ok x ∧ x.isFinite = true) ∧
    (∀ m, Matrix.read s = .ok m →
      (s.toList.splitOn ',').map (fun p => readFloat (trim p)) = m.toList.map .ok ∧
      ∀ x ∈ m.toList, x.isFinite = true) ∧
    (∀ e, Matrix.read s = .error e ↔ e.text = s ∧ Fails (s.toList.splitOn ',') e.fault) ∧
    Matrix.fill? s = some (Matrix.read s) := by
  refine ⟨⟨fun ⟨m, hm⟩ => ?_, fun ⟨hsix, hall⟩ => ?_⟩, fun m hm => ?_, fun e => read_eq_error_iff,
    Matrix.fill?_eq s⟩
  · have hcomponents := read_eq_ok_iff.mp hm
    exact ⟨hcomponents.length_eq, exists_forall₂_iff.mp ⟨_, hcomponents⟩⟩
  · obtain ⟨xs, hxs⟩ := exists_forall₂_iff.mpr hall
    obtain ⟨m, -, hm⟩ := exists_toList_eq (hxs.length_eq ▸ hsix)
    exact ⟨m, read_eq_ok_iff.mpr (hm ▸ hxs)⟩
  · exact forall₂_isComponent_iff.mp (read_eq_ok_iff.mp hm)

/-- Blanks do not count; the second piece is reported before an infinity and before a seventh piece. -/
theorem spaced_matrix_reads :
    (∃ m, Matrix.read " 1, .5,0 ,\t-2e1,0,+3" = .ok m ∧ ∀ x ∈ m.toList, x.isFinite = true) ∧
    Matrix.read "1,x,inf,0,0,0,0" = .error ⟨"1,x,inf,0,0,0,0", .unreadable 1 .invalid⟩ := by
  obtain ⟨m, hspaced⟩ : ∃ m, Matrix.read " 1, .5,0 ,\t-2e1,0,+3" = .ok m := ⟨_, rfl⟩
  have hfinite := ((read_six_finite_or_first_fault _).2.1 m hspaced).2
  have hone : ∃ x, IsComponent ['1'] x := ⟨1, rfl, rfl⟩
  have hpieces : "1,x,inf,0,0,0,0".toList.splitOn ',' =
    [['1']] ++ ['x'] :: [['i', 'n', 'f'], ['0'], ['0'], ['0'], ['0']] := rfl
  have hfails : Fails ("1,x,inf,0,0,0,0".toList.splitOn ',') (.unreadable 1 .invalid) :=
    .component hpieces (by decide) (by simpa using hone) (.unreadable rfl)
  exact ⟨⟨m, hspaced, hfinite⟩, ((read_six_finite_or_first_fault _).2.2.1 _).mpr ⟨rfl, hfails⟩⟩

end Matrix

end Geometry

end SceneReel
