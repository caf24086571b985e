import SceneReel.CommandLine.Run

/-! The command line on the files of the system. -/
namespace SceneReel.CommandLine

def fileError : IO.Error → FileError
  | .noFileOrDirectory .. | .noSuchThing .. => .notFound
  | .alreadyExists .. => .exists
  | .inappropriateType _ code _ => if code = 20 then .notDirectory else .isDirectory
  | .invalidArgument _ 36 _ => .nameTooLong
  | .permissionDenied .. => .other "Permission denied (os error 13)"
  | e => .other (toString e)

def systemFiles : Files IO where
  read path := do
    let handle ← try
        pure (Except.ok (← IO.FS.Handle.mk path .read))
      catch e => pure (.error e)
    match handle with
    | .error e => pure (.error (.opening (fileError e)))
    | .ok handle =>
      try
        pure (.ok (← handle.readToEnd))
      catch e => pure (.error (.reading (fileError e)))
  isDirectory path := do
    try
      discard ((← IO.FS.Handle.mk path .read).read 1)
      pure false
    catch e => pure (fileError e = .isDirectory)
  makeDirectory path := do
    try
      IO.FS.createDir path
      pure (.ok ())
    catch e => pure (.error (fileError e))
  write path text := do
    try
      IO.FS.writeFile path text
      pure (.ok ())
    catch e => pure (.error (fileError e))

end SceneReel.CommandLine

def main (args : List String) : IO UInt32 := do
  let exit ← SceneReel.CommandLine.run SceneReel.CommandLine.systemFiles args
  IO.print exit.stdout
  IO.eprint exit.stderr
  pure exit.code.toUInt32
