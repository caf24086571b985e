import SceneReel.Stage

/-! What the command line prints about a document or a stage. -/
namespace SceneReel.CommandLine

/-- The state of a stage, with the events of its run if they are wanted. -/
def stageReport (s : Stage) (trace : Option (List Event)) : Json :=
  let trace :=
    match trace with
    | some events => [("trace", Json.array (events.map Event.toJson))]
    | none => []
  .object <| [
    ("ticks", .int s.ticks),
    ("frame", .int s.animator.cursor),
    ("frame_count", .int s.animator.frameCount),
    ("animators", .int s.animator.arena.size),
    ("root", s.root.toJson)] ++ trace

def documentReport (d : Document) : String :=
  let main :=
    match d.main with
    | some timeline => s!"{timeline.frameCount} frames"
    | none => "none"
  let l := d.library
  s!"shapes:    {l.shapes.size}\n" ++
    s!"bitmaps:   {l.bitmaps.size}\n" ++
    s!"texts:     {l.texts.size}\n" ++
    s!"sounds:    {l.sounds.size}\n" ++
    s!"timelines: {l.timelines.size}\n" ++
    s!"main timeline: {main}\n"

end SceneReel.CommandLine
