import SceneReel.Asset.Library
import SceneReel.Descriptor.Document

/-! Loaded documents: the library of assets and the main timeline, read from JSON text. -/
namespace SceneReel

open Asset Descriptor

structure Document where
  library : Library := {}
  main : Option Timeline := none

inductive DocumentError where
  | id (e : IdError)
  /-- A timeline does not compile; the main timeline has no character id. -/
  | timeline (charid : Option String) (e : TimelineError)
  | secondMain
  deriving DecidableEq, Repr

def DocumentError.describe : DocumentError → String
  | .id e => e.describe
  | .timeline charid e =>
    let label :=
      match charid with
      | some s => s!"'{s}'"
      | none => "main"
    let cause := Error.message (.validation e.describe)
    s!"timeline {label}: {cause}"
  | .secondMain => "document has more than one main timeline"

/-- Enters assets into a catalog in order; a later one replaces an earlier one of the same id. -/
def enterAll {α : Type} (c : Catalog α) : List (Entry α) → Except DocumentError (Catalog α)
  | [] => .ok c
  | e :: es =>
    match CharId.read e.charid with
    | .error cause => .error (.id cause)
    | .ok id => enterAll (c.insert id e.asset) es

namespace Document

/-- Adds timelines in order; there may be one without a character id, the main timeline. -/
def addTimelines (d : Document) : List TimelineDef → Except DocumentError Document
  | [] => .ok d
  | t :: ts =>
    match t.compile with
    | .error e => .error (.timeline t.charid e)
    | .ok timeline =>
      match t.charid with
      | none =>
        if d.main.isSome then .error .secondMain
        else addTimelines { d with main := some timeline } ts
      | some s =>
        match CharId.read s with
        | .error e => .error (.id e)
        | .ok id =>
          let timelines := d.library.timelines.insert id timeline
          addTimelines { d with library := { d.library with timelines } } ts

/-- Compiles a document: shapes, bitmaps, sounds, texts and timelines, up to the first fault. -/
def compile (d : DocumentDef) : Except DocumentError Document := do
  let shapes ← enterAll {} d.shapes
  let bitmaps ← enterAll {} d.bitmaps
  let sounds ← enterAll {} d.sounds
  let texts ← enterAll {} d.texts
  addTimelines { library := { shapes, bitmaps, texts, sounds } } d.timelines

end Document

inductive LoadError where
  | decode (e : Json.DecodeError)
  | compile (e : DocumentError)
  deriving DecidableEq, Repr

def LoadError.toError : LoadError → Error
  | .decode e => .serialization s!"parse document JSON: {e.describe}"
  | .compile e => .validation e.describe

def Document.read (s : String) : Except LoadError Document :=
  match Json.decodeText DocumentDef.record.decode s with
  | .error e => .error (.decode e)
  | .ok d => (Document.compile d).mapError .compile

end SceneReel
