import SceneReel.CommandLine.Arguments
import SceneReel.CommandLine.Files
import SceneReel.CommandLine.Report

/-! A call of the command line, for any way to operate on files. -/
namespace SceneReel.CommandLine

structure Exit where
  code : UInt8 := 0
  stdout : String := ""
  stderr : String := ""
  deriving DecidableEq, Repr

/-- The end of a call that failed: what was tried, and why it failed, further lines indented. -/
def Exit.failed (attempt cause : String) : Exit where
  code := 1
  stderr :=
    let cause := "\n    ".intercalate (cause.splitOn "\n")
    s!"Error: {attempt}\n\nCaused by:\n    {cause}\n"

def usage : String :=
  "Usage: stagehand play --in <IN> [--ticks <TICKS>] [--max-depth <MAX_DEPTH>] [--trace] " ++
    "[--out <OUT>]\n       stagehand inspect --in <IN>\n"

variable {m : Type → Type} [Monad m]

def loadDocument (files : Files m) (path : String) : m (Except Error Document) := do
  match ← files.read path with
  | .error (.opening e) =>
    pure (.error (.validation s!"open document JSON '{path}': {e.message}"))
  | .error (.reading e) => pure (.error (.serialization s!"parse document JSON: {e.message}"))
  | .ok text => pure ((Document.read text).mapError LoadError.toError)

/-- Writes a text to a file, in directories created for it. -/
def writeReport (files : Files m) (path text : String) : m Exit := do
  let directory := (parent? path).getD ""
  match ← files.createDirectories directory with
  | .error e => pure (.failed s!"create output dir '{directory}'" e.message)
  | .ok () =>
    match ← files.write path text with
    | .error e => pure (.failed s!"create '{path}'" e.message)
    | .ok () => pure { stderr := s!"wrote {path}\n" }

def playReport (r : PlayRequest) (s : Stage) : Json :=
  if r.trace then
    let (s, events) := s.record r.ticks #[]
    stageReport s (some events.toList)
  else stageReport (s.advance r.ticks) none

def runPlay (files : Files m) (r : PlayRequest) : m Exit := do
  match ← loadDocument files r.input with
  | .error e => pure (.failed s!"load document '{r.input}'" e.message)
  | .ok d =>
    let defaults : Options := {}
    let options := { defaults with maxNestingDepth := r.maxDepth.getD defaults.maxNestingDepth }
    match Stage.ofDocument d options with
    | .error e =>
      pure (.failed s!"build stage for '{r.input}'" (Error.message (.validation e.describe)))
    | .ok stage =>
      let text := (playReport r stage).pretty 0
      match r.output with
      | some path => writeReport files path text
      | none => pure { stdout := text ++ "\n" }

def runInspect (files : Files m) (input : String) : m Exit := do
  match ← loadDocument files input with
  | .error e => pure (.failed s!"load document '{input}'" e.message)
  | .ok d => pure { stdout := documentReport d }

def run (files : Files m) (args : List String) : m Exit :=
  match parse? args with
  | none => pure { code := 2, stderr := usage }
  | some .help => pure { stdout := usage }
  | some .version => pure { stdout := "stagehand 0.1.0\n" }
  | some (.play r) => runPlay files r
  | some (.inspect input) => runInspect files input

end SceneReel.CommandLine
