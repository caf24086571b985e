import SceneReel.Proofs.Descriptor.Fields
import SceneReel.Timeline.Basic

/-!
What compiling a timeline comes to: descriptor by descriptor, up to the first one that does not compile.
-/
namespace SceneReel.Descriptor

open Text

theorem compileCommands_eq_tryEach (frame command : Nat) (cs : List CommandDef) :
    compileCommands frame command cs =
      tryEach (fun j c => c.compile.mapError (⟨frame, j, ·⟩)) command cs := by
  induction cs generalizing command with
  | nil => rfl
  | cons c cs ih =>
    rw [compileCommands, tryEach, ← ih]
    cases c.compile <;> rfl

theorem compileFrames_eq_tryEach (frame : Nat) (fs : List FrameDef) :
    compileFrames frame fs =
      tryEach (fun i f => (compileCommands i 0 f.commands).map Frame.mk) frame fs := by
  induction fs generalizing frame with
  | nil => rfl
  | cons f fs ih =>
    rw [compileFrames, tryEach, ← ih]
    cases compileCommands frame 0 f.commands <;> rfl

section Traversal

variable {cs : List CommandDef} {t : TimelineDef} {frame command : Nat}

def Compiled (f : FrameDef) (frame : Frame) : Prop :=
  List.Forall₂ (fun (c : CommandDef) compiled => c.compile = .ok compiled) f.commands frame.commands

theorem compileCommands_eq_ok_iff (frame command : Nat) {compiled : List FrameCommand} :
    compileCommands frame command cs = .ok compiled ↔
      List.Forall₂ (fun (c : CommandDef) compiled => c.compile = .ok compiled) cs compiled := by
  rw [compileCommands_eq_tryEach]
  exact tryEach_eq_ok_iff command fun _ _ _ => mapError_eq_ok_iff

theorem compileCommands_eq_error_iff {e : TimelineError} :
    compileCommands frame command cs = .error e ↔ e.frame = frame ∧ ∃ before c after,
      cs = before ++ c :: after ∧ (∀ d ∈ before, ∃ compiled, d.compile = .ok compiled) ∧
      e.command = command + before.length ∧ c.compile = .error e.cause := by
  rw [compileCommands_eq_tryEach, tryEach_eq_error_iff fun _ _ _ => mapError_eq_ok_iff]
  obtain ⟨i, j, cause⟩ := e
  have herror : ∀ (c : CommandDef) (k : Nat),
      c.compile.mapError (TimelineError.mk frame k) = .error ⟨i, j, cause⟩ ↔
        i = frame ∧ j = k ∧ c.compile = .error cause := by
    intro c k
    rw [mapError_eq_error_iff]
    constructor
    · rintro ⟨_, hc, ⟨⟩⟩
      exact ⟨rfl, rfl, hc⟩
    · rintro ⟨rfl, rfl, hc⟩
      exact ⟨cause, hc, rfl⟩
  simp only [herror]
  constructor
  · rintro ⟨before, c, after, hcs, hbefore, hi, hj, hc⟩
    exact ⟨hi, before, c, after, hcs, hbefore, hj, hc⟩
  · rintro ⟨hi, before, c, after, hcs, hbefore, hj, hc⟩
    exact ⟨before, c, after, hcs, hbefore, hi, hj, hc⟩

theorem frame_eq_ok_iff (i : Nat) (f : FrameDef) (frame : Frame) :
    (compileCommands i 0 f.commands).map Frame.mk = .ok frame ↔ Compiled f frame := by
  obtain ⟨commands⟩ := frame
  rw [Compiled, ← compileCommands_eq_ok_iff i 0]
  cases compileCommands i 0 f.commands <;> simp [Except.map]

theorem exists_compiled_iff (f : FrameDef) :
    (∃ frame, Compiled f frame) ↔ ∀ c ∈ f.commands, ∃ compiled, c.compile = .ok compiled := by
  rw [← exists_forall₂_iff]
  exact ⟨fun ⟨frame, h⟩ => ⟨_, h⟩, fun ⟨commands, h⟩ => ⟨⟨commands⟩, h⟩⟩

theorem TimelineDef.compile_eq_ok_iff {timeline : Timeline} :
    t.compile = .ok timeline ↔ List.Forall₂ Compiled t.frames timeline.frames := by
  obtain ⟨frames⟩ := timeline
  rw [← tryEach_eq_ok_iff 0 frame_eq_ok_iff, ← compileFrames_eq_tryEach, compile]
  cases compileFrames 0 t.frames <;> simp [Except.map]

theorem TimelineDef.compile_eq_error_iff {e : TimelineError} :
    t.compile = .error e ↔ ∃ frames f frames', t.frames = frames ++ f :: frames' ∧
      e.frame = frames.length ∧ (∀ g ∈ frames, ∀ c ∈ g.commands, ∃ compiled, c.compile = .ok compiled) ∧
      ∃ before c after, f.commands = before ++ c :: after ∧ e.command = before.length ∧
        (∀ d ∈ before, ∃ compiled, d.compile = .ok compiled) ∧ c.compile = .error e.cause := by
  rw [compile, map_eq_error_iff, compileFrames_eq_tryEach, tryEach_eq_error_iff frame_eq_ok_iff]
  simp only [map_eq_error_iff, compileCommands_eq_error_iff, exists_compiled_iff, Nat.zero_add]
  constructor
  · rintro ⟨frames, f, frames', hfs, hbefore, hi, before, c, after, hcs, hgood, hj, hc⟩
    exact ⟨frames, f, frames', hfs, hi, hbefore, before, c, after, hcs, hj, hgood, hc⟩
  · rintro ⟨frames, f, frames', hfs, hi, hbefore, before, c, after, hcs, hj, hgood, hc⟩
    exact ⟨frames, f, frames', hfs, hbefore, hi, before, c, after, hcs, hgood, hj, hc⟩

/-- A timeline compiles just if each descriptor does; or else the first one that does not is reported
with its place. -/
theorem TimelineDef.compiles_or_first_fault (t : TimelineDef) :
    ((∃ timeline, t.compile = .ok timeline) ↔
      ∀ f ∈ t.frames, ∀ c ∈ f.commands, ∃ command, c.compile = .ok command) ∧
    (∀ timeline, t.compile = .ok timeline ↔ List.Forall₂ Compiled t.frames timeline.frames) ∧
    (∀ e, t.compile = .error e ↔ ∃ frames f frames', t.frames = frames ++ f :: frames' ∧
      e.frame = frames.length ∧ (∀ g ∈ frames, ∀ c ∈ g.commands, ∃ command, c.compile = .ok command) ∧
      ∃ before c after, f.commands = before ++ c :: after ∧ e.command = before.length ∧
        (∀ d ∈ before, ∃ command, d.compile = .ok command) ∧ c.compile = .error e.cause) ∧
    ∀ c : CommandDef,
      ((∃ command, c.compile = .ok command) ↔
        c.cmdType ∉ knownTypes ∨ ∀ field ∈ fieldsOf c.cmdType, c.WellFormed field) ∧
      (∀ command, c.compile = .ok command ↔ c.Means command) ∧
      (∀ e, c.compile = .error e ↔ ∃ before field after, fieldsOf c.cmdType = before ++ field :: after ∧
        (∀ other ∈ before, c.WellFormed other) ∧ c.Faults field e) ∧
      ∀ d : CommandDef, d.cmdType = c.cmdType →
        (∀ field ∈ fieldsOf c.cmdType, d.field? field = c.field? field) → d.compile = c.compile := by
  refine ⟨?_, fun _ => compile_eq_ok_iff, fun _ => compile_eq_error_iff, fun c => ⟨?_,
    fun _ => CommandDef.compile_eq_ok_iff, fun _ => CommandDef.compile_eq_error_iff,
    fun _ => CommandDef.compile_congr⟩⟩
  · have hframes : (∃ timeline, t.compile = .ok timeline) ↔ ∃ frames, List.Forall₂ Compiled t.frames frames :=
      ⟨fun ⟨_, h⟩ => ⟨_, compile_eq_ok_iff.mp h⟩, fun ⟨frames, h⟩ => ⟨⟨frames⟩, compile_eq_ok_iff.mpr h⟩⟩
    rw [hframes, exists_forall₂_iff]
    simp only [exists_compiled_iff]
  · rw [CommandDef.exists_compile_eq_ok_iff]
    refine ⟨.inr, fun h => h.elim (fun hunknown => ?_) id⟩
    rw [CommandDef.fieldsOf_of_unknown hunknown]
    exact List.forall_mem_nil _

/-- A command that moves its object behind no sibling. -/
def backward : CommandDef := { cmdType := "UpdateZOrder", objectId := some " 7", placeAfter := some "+00" }

/-- A command that lacks an object, and a matrix too. -/
def loose : CommandDef := { cmdType := "Place", charid := some "3", transformMatrix := some "1,2" }

def halting : TimelineDef :=
  { frames := [{ commands := [backward] }, { commands := [{ cmdType := "Shake" }, loose] }] }

theorem halting_first_fault :
    halting.compile = .error ⟨1, 1, .noObject "Place"⟩ ∧
    backward.compile = .ok (.known (.reorder ⟨7⟩ none)) ∧
    { backward with transformMatrix := some "x" }.compile = backward.compile := by
  obtain ⟨-, -, herror, hcommand⟩ := TimelineDef.compiles_or_first_fault halting
  have hseven : Spells " 7" 7 :=
    ⟨[' '], ['7'], [], by decide, by decide, .plain (by decide) (List.all_eq_true.mp rfl), by decide⟩
  have hzero : Spells "+00" 0 :=
    ⟨[], ['+', '0', '0'], [], by decide, by decide, .signed (by decide) (List.all_eq_true.mp rfl), by decide⟩
  have hthree : Spells "3" 3 :=
    ⟨[], ['3'], [], by decide, by decide, .plain (by decide) (List.all_eq_true.mp rfl), by decide⟩
  have hbackward : backward.compile = .ok (.known (.reorder ⟨7⟩ none)) :=
    ((hcommand backward).2.1 _).mpr
      (.reorder rfl ⟨" 7", rfl, hseven⟩ (.inr ⟨0, ⟨"+00", rfl, hzero⟩, rfl⟩))
  have hshake : ∃ command, CommandDef.compile { cmdType := "Shake" } = .ok command :=
    (hcommand _).1.mpr (.inl (by decide))
  have hcharacter : loose.WellFormed .charid := ⟨3, "3", rfl, hthree⟩
  have hloose : loose.compile = .error (.noObject "Place") :=
    ((hcommand loose).2.2.1 _).mpr ⟨[.charid], .objectId, [.placeAfter, .transformMatrix], rfl,
      by simpa using hcharacter, .noObject rfl⟩
  refine ⟨(herror _).mpr ⟨[{ commands := [backward] }], { commands := [{ cmdType := "Shake" }, loose] }, [],
    rfl, rfl, ?_, [{ cmdType := "Shake" }], loose, [], rfl, rfl, ?_, hloose⟩, hbackward,
    (hcommand backward).2.2.2 _ rfl ?_⟩
  · simpa using ⟨_, hbackward⟩
  · simpa using hshake
  · intro field hfield
    cases field with
    | transformMatrix => simp [backward, fieldsOf] at hfield
    | _ => rfl

end Traversal

end SceneReel.Descriptor
