import SceneReel.Trace.Event

/-! Log lines for the events of playback. -/
namespace SceneReel

inductive LogLevel where
  | trace
  | debug
  | warn
  deriving DecidableEq, Repr

def LogLevel.label : LogLevel → String
  | .trace => "TRACE"
  | .debug => "DEBUG"
  | .warn => "WARN"

/-- A line of the log: its message, and the named values that go with it. -/
structure LogLine where
  level : LogLevel
  message : String
  fields : List (String × String)
  deriving DecidableEq, Repr

/-- The lines for a frame: one of its own, and one more if commands were skipped. -/
def FrameEvent.log (e : FrameEvent) : List LogLine :=
  let line : LogLine :=
    ⟨.trace, "frame", [
      ("animator", e.animator.display),
      ("frame", toString e.frame),
      ("looped", Json.boolText e.looped),
      ("pruned", toString e.pruned),
      ("commands", toString e.commands)]⟩
  if e.unsupported = 0 then [line]
  else [line,
    ⟨.debug, "unsupported commands skipped", [
      ("animator", e.animator.display),
      ("frame", toString e.frame),
      ("skipped", toString e.unsupported)]⟩]

/-- The lines for an event. A command that took effect has none. -/
def Event.log : Event → List LogLine
  | .frame e => e.log
  | .command _ _ _ .applied => []
  | .command animator kind object outcome =>
    [⟨.debug, "command did not fully apply", [
      ("animator", animator.display),
      ("kind", kind.label),
      ("object", toString object.value),
      ("outcome", outcome.label)]⟩]
  | .spawn parent child object char =>
    [⟨.debug, "spawned nested animator", [
      ("parent", parent.display),
      ("child", child.display),
      ("object", toString object.value),
      ("char_id", toString char.value)]⟩]
  | .retire animator slots reason =>
    [⟨.debug, "retired animator", [
      ("animator", animator.display),
      ("slots", toString slots),
      ("reason", reason.label)]⟩]
  | .nestingLimit parent object depth =>
    [⟨.warn, "nesting limit reached; clip placed without animator", [
      ("parent", parent.display),
      ("object", toString object.value),
      ("depth", toString depth)]⟩]

end SceneReel
