import SceneReel.Document
import SceneReel.Proofs.Fallible
import SceneReel.Proofs.Playback.Supported

/-!
Documents without commands of unknown type. Dropping their descriptors before compiling gives the same
document as dropping the commands afterwards.
-/
namespace SceneReel

open Descriptor

namespace Catalog

variable {α β : Type}

def map (f : α → β) (c : Catalog α) : Catalog β where
  entries := c.entries.map fun e => (e.1, f e.2)
  ascending := by
    unfold Ascending
    rw [List.pairwise_map]
    exact c.ascending

theorem get?_map (f : α → β) (c : Catalog α) (id : CharId) : (c.map f).get? id = (c.get? id).map f := by
  show (c.entries.map fun e => (e.1, f e.2)).lookup id = (c.entries.lookup id).map f
  induction c.entries with
  | nil => rfl
  | cons e es ih =>
    obtain ⟨key, value⟩ := e
    rw [List.map_cons, lookup_cons_entry, lookup_cons_entry]
    by_cases hid : id = key
    · rw [if_pos hid, if_pos hid]
      rfl
    · rw [if_neg hid, if_neg hid, ih]

theorem insert_map (f : α → β) (c : Catalog α) (id : CharId) (value : α) :
    (c.map f).insert id (f value) = (c.insert id value).map f := by
  have hentries : ∀ es : List (CharId × α),
      insertEntry id (f value) (es.map fun e => (e.1, f e.2)) =
        (insertEntry id value es).map fun e => (e.1, f e.2) := by
    intro es
    induction es with
    | nil => rfl
    | cons e es ih =>
      rw [List.map_cons, insertEntry, insertEntry, ih]
      split
      · rfl
      · split <;> rfl
  simp only [insert, map, hentries]

end Catalog

/-- The library with no commands of unknown type in its timelines. -/
def Library.supported (l : Library) : Library :=
  { l with timelines := l.timelines.map Timeline.supported }

theorem Library.resolve_supported (l : Library) (char : CharId) :
    l.supported.resolve char = (l.resolve char).map Resolved.supported := by
  have htimelines : l.supported.timelines.get? char = (l.timelines.get? char).map Timeline.supported :=
    l.timelines.get?_map Timeline.supported char
  unfold resolve
  rw [htimelines]
  show ((l.shapes.get? char).map _ <|> (l.bitmaps.get? char).map _ <|> (l.texts.get? char).map _ <|> _) =
    _
  cases l.shapes.get? char with
  | some x => rfl
  | none =>
    cases l.bitmaps.get? char with
    | some x => rfl
    | none =>
      cases l.texts.get? char with
      | some x => rfl
      | none => cases l.timelines.get? char <;> rfl

def Document.supported (d : Document) : Document where
  library := d.library.supported
  main := d.main.map Timeline.supported

namespace Descriptor

/-- The descriptor compiles to a command of unknown type. -/
def CommandDef.isUnsupported (c : CommandDef) : Bool :=
  match c.compile with
  | .ok (.unsupported _) => true
  | _ => false

def FrameDef.supported (f : FrameDef) : FrameDef :=
  { f with commands := f.commands.filter (!·.isUnsupported) }

def TimelineDef.supported (t : TimelineDef) : TimelineDef :=
  { t with frames := t.frames.map FrameDef.supported }

/-- The document with the descriptors dropped that compile to commands of unknown type. -/
def DocumentDef.supported (d : DocumentDef) : DocumentDef :=
  { d with timelines := d.timelines.map TimelineDef.supported }

theorem isSome_command?_of_compile {c : CommandDef} {compiled : FrameCommand}
    (h : c.compile = .ok compiled) : compiled.command?.isSome = !c.isUnsupported := by
  unfold CommandDef.isUnsupported
  rw [h]
  cases compiled <;> rfl

/-- The commands that are left compile to those that are left, whatever their places. -/
theorem compileCommands_supported {cs : List CommandDef} {frame k : Nat} {compiled : List FrameCommand}
    (h : compileCommands frame k cs = .ok compiled) (frame' k' : Nat) :
    compileCommands frame' k' (cs.filter (!·.isUnsupported)) =
      .ok (compiled.filter (·.command?.isSome)) := by
  induction cs generalizing k k' compiled with
  | nil =>
    cases h
    rfl
  | cons c cs ih =>
    rw [compileCommands] at h
    cases hc : c.compile with
    | error e => simp [hc] at h
    | ok first =>
      simp only [hc] at h
      obtain ⟨rest, hcs, rfl⟩ := map_eq_ok_iff.mp h
      rw [List.filter_cons, List.filter_cons, isSome_command?_of_compile hc]
      cases c.isUnsupported with
      | true => simpa using ih hcs k'
      | false => simp [compileCommands, hc, ih hcs, Except.map]

theorem compileFrames_supported {fs : List FrameDef} {frame : Nat} {compiled : List Frame}
    (h : compileFrames frame fs = .ok compiled) (frame' : Nat) :
    compileFrames frame' (fs.map FrameDef.supported) = .ok (compiled.map Frame.supported) := by
  induction fs generalizing frame frame' compiled with
  | nil =>
    cases h
    rfl
  | cons f fs ih =>
    rw [compileFrames] at h
    cases hf : compileCommands frame 0 f.commands with
    | error e => simp [hf] at h
    | ok first =>
      simp only [hf] at h
      obtain ⟨rest, hfs, rfl⟩ := map_eq_ok_iff.mp h
      have hfirst := compileCommands_supported hf frame' 0
      simp only [List.map_cons, compileFrames, FrameDef.supported, hfirst, ih hfs, Except.map]
      rfl

theorem TimelineDef.compile_supported {t : TimelineDef} {compiled : Timeline}
    (h : t.compile = .ok compiled) : t.supported.compile = .ok compiled.supported := by
  unfold compile at h ⊢
  obtain ⟨frames, hfs, rfl⟩ := map_eq_ok_iff.mp h
  have hframes := compileFrames_supported hfs 0
  simp only [supported, hframes, Except.map]
  rfl

end Descriptor

namespace Document

theorem addTimelines_supported {ts : List TimelineDef} {d compiled : Document}
    (h : d.addTimelines ts = .ok compiled) :
    d.supported.addTimelines (ts.map TimelineDef.supported) = .ok compiled.supported := by
  induction ts generalizing d with
  | nil =>
    cases h
    rfl
  | cons t ts ih =>
    rw [addTimelines] at h
    cases ht : t.compile with
    | error e => simp [ht] at h
    | ok timeline =>
      simp only [ht] at h
      have ht' := TimelineDef.compile_supported ht
      rw [List.map_cons, addTimelines]
      simp only [ht']
      have hcharid : t.supported.charid = t.charid := rfl
      rw [hcharid]
      cases hc : t.charid with
      | none =>
        simp only [hc] at h ⊢
        have hmain : d.supported.main.isSome = d.main.isSome := Option.isSome_map
        rw [hmain]
        split at h
        · cases h
        · rw [if_neg ‹_›]
          exact ih h
      | some text =>
        simp only [hc] at h ⊢
        cases hid : CharId.read text with
        | error e => simp [hid] at h
        | ok id =>
          simp only [hid] at h ⊢
          rw [← ih h]
          congr 1
          simp only [supported, Library.supported, Catalog.insert_map]

/-- A document that compiles does so without the descriptors of unknown type, to the same document without
their commands. -/
theorem compile_supported {source : DocumentDef} {d : Document} (h : compile source = .ok d) :
    compile source.supported = .ok d.supported := by
  obtain ⟨shapes, hshapes, h⟩ := exists_of_bind_eq_ok h
  obtain ⟨bitmaps, hbitmaps, h⟩ := exists_of_bind_eq_ok h
  obtain ⟨sounds, hsounds, h⟩ := exists_of_bind_eq_ok h
  obtain ⟨texts, htexts, h⟩ := exists_of_bind_eq_ok h
  have hrest := addTimelines_supported h
  simp only [compile, DocumentDef.supported, hshapes, hbitmaps, hsounds, htexts]
  exact hrest

end Document

end SceneReel
