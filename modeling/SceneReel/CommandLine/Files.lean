import SceneReel.CommandLine.Path

/-! Files as the command line uses them: what can go wrong, and the operations that it needs. -/
namespace SceneReel.CommandLine

inductive FileError where
  | notFound
  | exists
  | notDirectory
  | isDirectory
  | nameTooLong
  | other (text : String)
  deriving DecidableEq, Repr

def FileError.message : FileError → String
  | .notFound => "No such file or directory (os error 2)"
  | .exists => "File exists (os error 17)"
  | .notDirectory => "Not a directory (os error 20)"
  | .isDirectory => "Is a directory (os error 21)"
  | .nameTooLong => "File name too long (os error 36)"
  | .other text => text

inductive ReadFailure where
  | opening (e : FileError)
  | reading (e : FileError)
  deriving DecidableEq, Repr

/-- The operations on files that the command line needs. -/
structure Files (m : Type → Type) where
  read : String → m (Except ReadFailure String)
  isDirectory : String → m Bool
  /-- Creates a directory in one that is there. -/
  makeDirectory : String → m (Except FileError Unit)
  /-- Writes a file, replacing the one there was. -/
  write : String → String → m (Except FileError Unit)

namespace Files

variable {m : Type → Type} [Monad m]

/-- Creates a directory after those that it lies in, given the ways to it, innermost first. -/
def createAlong (files : Files m) : List String → m (Except FileError Unit)
  | [] => pure (.ok ())
  | path :: above => do
    match ← files.makeDirectory path with
    | .ok () => pure (.ok ())
    | .error .exists => settle path
    | .error .notFound =>
      match ← createAlong files above with
      | .error e => pure (.error e)
      | .ok () =>
        match ← files.makeDirectory path with
        | .error .exists => settle path
        | made => pure made
    | .error e => pure (.error e)
where
  /-- Something is in the place of a directory: that is well if it is one. -/
  settle (path : String) : m (Except FileError Unit) := do
    pure (if ← files.isDirectory path then .ok () else .error .exists)

def createDirectories (files : Files m) (path : String) : m (Except FileError Unit) :=
  files.createAlong (ancestors path)

end Files

end SceneReel.CommandLine
