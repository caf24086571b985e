import SceneReel.Descriptor.Scalar

/-!
Timelines as an exporter writes them: frames of command descriptors whose fields are still text. The
reader and the writer of each record stand side by side.
-/
namespace SceneReel.Descriptor

open Json

/-- A command, told apart by its type. Which of the other fields it needs depends on the type. -/
structure CommandDef where
  cmdType : String := ""
  charid : Option String := none
  objectId : Option String := none
  placeAfter : Option String := none
  transformMatrix : Option String := none
  visibility : Option String := none
  deriving DecidableEq, Repr

structure FrameDef where
  num : Option String := none
  commands : List CommandDef := []
  deriving DecidableEq, Repr

/-- A timeline; the one without a character id is the main timeline. -/
structure TimelineDef where
  charid : Option String := none
  frames : List FrameDef := []
  deriving DecidableEq, Repr

def decodeOptionalScalar : Decoder (Option String) :=
  decodeOption decodeScalar

def CommandDef.record : Record CommandDef where
  name := "CommandDef"
  blank := {}
  fields := [
    .mandatory "cmdType" decodeScalar fun x c => { c with cmdType := x },
    .optional "charid" decodeOptionalScalar fun x c => { c with charid := x },
    .optional "objectId" decodeOptionalScalar fun x c => { c with objectId := x },
    .optional "placeAfter" decodeOptionalScalar fun x c => { c with placeAfter := x },
    .optional "transformMatrix" decodeOptionalScalar fun x c => { c with transformMatrix := x },
    .optional "visibility" decodeStringOnly fun x c => { c with visibility := x }]

def FrameDef.record : Record FrameDef where
  name := "FrameDef"
  blank := {}
  fields := [
    .optional "num" decodeOptionalScalar fun x f => { f with num := x },
    .optional "Command" (decodeList CommandDef.record.decode) fun x f => { f with commands := x }]

def TimelineDef.record : Record TimelineDef where
  name := "TimelineDef"
  blank := {}
  fields := [
    .optional "charid" decodeOptionalScalar fun x t => { t with charid := x },
    .optional "Frame" (decodeList FrameDef.record.decode) fun x t => { t with frames := x }]

def CommandDef.toJson (c : CommandDef) : Json :=
  .object <| ("cmdType", .string c.cmdType) ::
    (optionalMember "charid" c.charid ++ optionalMember "objectId" c.objectId ++
      optionalMember "placeAfter" c.placeAfter ++
      optionalMember "transformMatrix" c.transformMatrix ++
      optionalMember "visibility" c.visibility)

def FrameDef.toJson (f : FrameDef) : Json :=
  .object <| optionalMember "num" f.num ++ [("Command", .array (f.commands.map CommandDef.toJson))]

def TimelineDef.toJson (t : TimelineDef) : Json :=
  .object <| optionalMember "charid" t.charid ++ [("Frame", .array (t.frames.map FrameDef.toJson))]

end SceneReel.Descriptor
