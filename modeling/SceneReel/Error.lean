/-! The families of failures that loading can report, and their full wording. -/
namespace SceneReel

inductive Error where
  /-- Timeline, command or document data that breaks a rule. -/
  | validation (cause : String)
  /-- A text that does not hold the data expected of it. -/
  | serialization (cause : String)
  /-- Anything else, such as a failed file access. -/
  | other (text : String)
  deriving DecidableEq, Repr

/-- The full wording: the family, then the cause. -/
def Error.message : Error → String
  | .validation cause => s!"validation error: {cause}"
  | .serialization cause => s!"serialization error: {cause}"
  | .other text => text

end SceneReel
