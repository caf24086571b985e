import SceneReel.CommandLine.Files

/-! Files in memory. -/
namespace SceneReel.CommandLine

abbrev Location := List String

inductive Entry where
  | file (text : String)
  | directory
  deriving DecidableEq, Repr

/-- Files and directories in memory, besides the working directory and those that it lies in. -/
structure FileTree where
  home : Location := ["tmp", "stage"]
  files : List (Location × String) := []
  directories : List Location := []

def nameLimit : Nat := 255

def pathLimit : Nat := 4095

def Location.step (here : Location) : String → Except FileError Location
  | "." => .ok here
  | ".." => .ok here.dropLast
  | name => if nameLimit < name.utf8ByteSize then .error .nameTooLong else .ok (here ++ [name])

namespace FileTree

def entry? (t : FileTree) (place : Location) : Option Entry :=
  if place.isPrefixOf t.home || t.directories.contains place then some .directory
  else (t.files.lookup place).map .file

def walk (t : FileTree) (here : Location) : List String → Except FileError Location
  | [] => .ok here
  | part :: parts => do
    let place ← here.step part
    match t.entry? place with
    | some .directory => t.walk place parts
    | some (.file _) => .error .notDirectory
    | none => .error .notFound

/-- The directory in which the last part of a path is looked up, and that part. -/
def locate (t : FileTree) (path : String) : Except FileError (Location × String) :=
  if path = "" then .error .notFound
  else if pathLimit < path.utf8ByteSize then .error .nameTooLong
  else
    let start := if path.startsWith "/" then [] else t.home
    (t.walk start (parts path).dropLast).map (·, (parts path).getLast?.getD ".")

def find (t : FileTree) (path : String) : Except FileError Entry := do
  let (here, last) ← t.locate path
  let place ← here.step last
  match t.entry? place with
  | none => .error .notFound
  | some .directory => .ok .directory
  | some (.file text) => if path.endsWith "/" then .error .notDirectory else .ok (.file text)

/-- The last part of a path leads to a directory by itself. -/
def isPoints (part : String) : Bool :=
  part == "." || part == ".."

/-- The text of a file; a directory can be opened, but not read. -/
def readText (t : FileTree) (path : String) : Except ReadFailure String :=
  match t.find path with
  | .error e => .error (.opening e)
  | .ok .directory => .error (.reading .isDirectory)
  | .ok (.file text) => .ok text

def hasDirectory (t : FileTree) (path : String) : Bool :=
  match t.find path with
  | .ok .directory => true
  | _ => false

def addDirectory (t : FileTree) (path : String) : Except FileError FileTree := do
  let (here, last) ← t.locate path
  if isPoints last then .error .exists
  else
    let place ← here.step last
    if (t.entry? place).isSome then .error .exists
    else .ok { t with directories := place :: t.directories }

/-- Writes a file, replacing the one there was; a path that ends in a separator asks for none. -/
def writeText (t : FileTree) (path text : String) : Except FileError FileTree := do
  let (here, last) ← t.locate path
  if isPoints last || path.endsWith "/" then .error .isDirectory
  else
    let place ← here.step last
    if t.entry? place = some .directory then .error .isDirectory
    else .ok { t with files := (place, text) :: t.files.filter (·.1 ≠ place) }

def change (f : FileTree → Except FileError FileTree) : StateM FileTree (Except FileError Unit) := do
  match f (← get) with
  | .ok t => set t; pure (.ok ())
  | .error e => pure (.error e)

def operations : Files (StateM FileTree) where
  read path := do pure ((← get).readText path)
  isDirectory path := do pure ((← get).hasDirectory path)
  makeDirectory path := change fun t => t.addDirectory path
  write path text := change fun t => t.writeText path text

/-- The files under the given paths, and the directories that these lie in. -/
def ofFiles (files : List (String × String)) : FileTree :=
  let add : StateM FileTree Unit := files.forM fun (path, text) => do
    discard (operations.createDirectories ((parent? path).getD ""))
    discard (operations.write path text)
  (add {}).2

def text? (t : FileTree) (path : String) : Option String :=
  (t.readText path).toOption

end FileTree

end SceneReel.CommandLine
