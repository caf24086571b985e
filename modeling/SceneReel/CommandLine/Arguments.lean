import SceneReel.Text.Numeral

/-! The arguments of the command line. -/
namespace SceneReel.CommandLine

open Text

structure PlayRequest where
  input : String
  ticks : Nat
  maxDepth : Option Nat
  trace : Bool
  output : Option String
  deriving DecidableEq, Repr

inductive Request where
  | play (r : PlayRequest)
  | inspect (input : String)
  | version
  | help
  deriving DecidableEq, Repr

/-- The options met so far, each at most once. -/
structure Settings where
  input : Option String := none
  ticks : Option Nat := none
  maxDepth : Option Nat := none
  trace : Bool := false
  output : Option String := none

/-- The options of a call, or the wish for help before all of them were read. -/
inductive Parsed where
  | settings (s : Settings)
  | help

def readCount? (s : String) : Option Nat :=
  (readNumeral UInt64.size s.toList).toOption

/-- Sets an option that takes a value; none of them may be set twice. -/
def Settings.set? (s : Settings) (name value : String) : Option Settings :=
  match name with
  | "in" =>
    if s.input.isNone && value ≠ "" then some { s with input := some value } else none
  | "out" =>
    if s.output.isNone && value ≠ "" then some { s with output := some value } else none
  | "ticks" =>
    if s.ticks.isNone then (readCount? value).map fun n => { s with ticks := some n } else none
  | "max-depth" =>
    if s.maxDepth.isNone then (readCount? value).map fun n => { s with maxDepth := some n } else none
  | _ => none

/-- A long option with the value attached to it, if there is one. -/
def splitOption (cs : List Char) : String × Option String :=
  match cs.span (· ≠ '=') with
  | (name, []) => (String.ofList name, none)
  | (name, _ :: value) => (String.ofList name, some (String.ofList value))

def isValue (arg : String) : Bool :=
  match arg.toList with
  | ['-'] => true
  | '-' :: _ => false
  | _ => true

def parseOptions? (valued flags : List String) (s : Settings) : List String → Option Parsed
  | [] => some (.settings s)
  | arg :: rest =>
    match arg.toList with
    | ['-', '-'] => if rest.isEmpty then some (.settings s) else none
    | '-' :: 'h' :: _ => some .help
    | '-' :: '-' :: cs =>
      match splitOption cs with
      | ("help", none) => some .help
      | (name, some value) =>
        if valued.contains name then
          (s.set? name value).bind fun s => parseOptions? valued flags s rest
        else none
      | (name, none) =>
        if flags.contains name then
          if s.trace then none else parseOptions? valued flags { s with trace := true } rest
        else if valued.contains name then
          match rest with
          | value :: rest =>
            if isValue value then
              (s.set? name value).bind fun s => parseOptions? valued flags s rest
            else none
          | [] => none
        else none
    | _ => none

def Settings.playRequest? (s : Settings) : Option Request :=
  s.input.map fun input =>
    .play ⟨input, s.ticks.getD 1, s.maxDepth, s.trace, s.output⟩

def parseCommand? (valued flags : List String) (request? : Settings → Option Request)
    (args : List String) : Option Request :=
  match parseOptions? valued flags {} args with
  | none => none
  | some .help => some .help
  | some (.settings s) => request? s

/-- Reads the arguments of a call; `none` if they make no request. -/
def parse? : List String → Option Request
  | "play" :: args =>
    parseCommand? ["in", "ticks", "max-depth", "out"] ["trace"] Settings.playRequest? args
  | "inspect" :: args => parseCommand? ["in"] [] (fun s => s.input.map .inspect) args
  | "--version" :: _ => some .version
  | "--help" :: _ => some .help
  | ["help"] | ["help", "help"] | ["help", "play"] | ["help", "inspect"] => some .help
  | arg :: _ =>
    match arg.toList with
    | '-' :: 'V' :: _ => some .version
    | '-' :: 'h' :: _ => some .help
    | _ => none
  | [] => none

end SceneReel.CommandLine
