/-! Paths as a caller writes them: their parts, and the directories that they lie in. -/
namespace SceneReel.CommandLine

/-- Drops separators and single points from the front of a path read backwards. -/
def dropTrailing : List Char → List Char
  | '.' :: '/' :: rest => dropTrailing ('/' :: rest)
  | '/' :: rest => dropTrailing rest
  | rest => rest

/-- The directory that a path lies in, both read backwards; empty for the working directory. -/
def parentBackwards? (path : List Char) : Option (List Char) :=
  let path := dropTrailing path
  if path.isEmpty then none
  else
    let above := path.dropWhile (· ≠ '/')
    let trimmed := dropTrailing above
    some (if trimmed.isEmpty && !above.isEmpty then ['/'] else trimmed)

theorem length_dropTrailing_le (path : List Char) : (dropTrailing path).length ≤ path.length := by
  fun_induction dropTrailing path <;> grind

theorem dropTrailing_not_separator (path : List Char) : (dropTrailing path).head? ≠ some '/' := by
  fun_induction dropTrailing path with
  | case1 rest ih => exact ih
  | case2 rest ih => exact ih
  | case3 rest points separator =>
    intro h
    cases rest with
    | nil => cases h
    | cons c rest => exact separator rest (congrArg (· :: rest) (Option.some.inj h))

theorem length_parentBackwards?_lt {path parent : List Char}
    (h : parentBackwards? path = some parent) : parent.length < path.length := by
  have trimmed := length_dropTrailing_le path
  have named := dropTrailing_not_separator path
  rw [parentBackwards?] at h
  generalize dropTrailing path = cs at h trimmed named
  cases cs with
  | nil => nomatch h
  | cons c cs =>
    have shorter : ((c :: cs).dropWhile (· ≠ '/')).length ≤ cs.length := by
      have letter : c ≠ '/' := fun h => named (congrArg some h)
      rw [List.dropWhile_cons_of_pos (by exact decide_eq_true letter)]
      exact (List.dropWhile_sublist _).length_le
    have above := length_dropTrailing_le ((c :: cs).dropWhile (· ≠ '/'))
    grind

def ancestorsBackwards (path : List Char) : List (List Char) :=
  if path.isEmpty then []
  else
    path :: match h : parentBackwards? path with
      | none => []
      | some parent =>
        have := length_parentBackwards?_lt h
        ancestorsBackwards parent
termination_by path.length

/-- The directory that a path lies in; empty for the working directory, none for the root. -/
def parent? (path : String) : Option String :=
  (parentBackwards? path.toList.reverse).map fun parent => String.ofList parent.reverse

/-- A path and the directories on the way to it, innermost first; none for the empty path. -/
def ancestors (path : String) : List String :=
  (ancestorsBackwards path.toList.reverse).map fun ancestor => String.ofList ancestor.reverse

def parts (path : String) : List String :=
  (path.splitOn "/").filter (· ≠ "")

end SceneReel.CommandLine
