import SceneReel.Document
import SceneReel.Proofs.Descriptor.Visibility
import SceneReel.Proofs.Json.Exchange
import SceneReel.Proofs.Json.ReadBack
import SceneReel.Proofs.Json.Written

/-!
Numbers and strings in documents. Where a scalar is expected an integer may be written as a string, and
nothing notices. The visibility of a command is the exception: there only a string counts at all.
-/
namespace SceneReel.Descriptor

open Json Asset

/-- The string of an integer of 64 bits may stand for it. -/
inductive RespelledScalar : Exchange
  | same (v : Json) : RespelledScalar v v
  | spelled (n : Int) (least : Int64.minValue.toInt ≤ n) (greatest : n ≤ Int64.maxValue.toInt) :
      RespelledScalar (.int n) (.string (toString n))

/-- The scalars of a command may be respelled, its visibility apart. -/
def CommandDef.Respelled : Exchange :=
  ByField [("cmdType", RespelledScalar), ("charid", RespelledScalar),
    ("objectId", RespelledScalar), ("placeAfter", RespelledScalar),
    ("transformMatrix", RespelledScalar), ("visibility", Eq)]

def FrameDef.Respelled : Exchange :=
  ByField [("num", RespelledScalar), ("Command", ByItem CommandDef.Respelled)]

def TimelineDef.Respelled : Exchange :=
  ByField [("charid", RespelledScalar), ("Frame", ByItem FrameDef.Respelled)]

/-- The character id of an entry may be respelled, and what the positions of the asset say. -/
inductive Entry.Respelled (asset : List (String × Exchange)) : Exchange
  | same (v : Json) : Entry.Respelled asset v v
  | members {ms ns : List (String × Json)} {cut : Option Fault}
      (h : Memberwise (("charid", RespelledScalar) :: asset) ms ns) :
      Entry.Respelled asset (.object ms cut) (.object ns cut)

/-- The scalars of an asset are the sizes of a bitmap. -/
def bitmapPositions : List (String × Exchange) :=
  [("width", RespelledScalar), ("height", RespelledScalar), ("bitmapPath", Eq)]

/-- The scalars of a document may be respelled, any of them, and the visibility of commands apart. -/
def DocumentDef.Respelled : Exchange :=
  ByField [
    ("Shape", ByItem (Entry.Respelled [("path", Eq)])),
    ("Bitmaps", ByItem (Entry.Respelled bitmapPositions)),
    ("Sounds", ByItem (Entry.Respelled [("soundPath", Eq)])),
    ("Text", ByItem (Entry.Respelled [("displayText", Eq), ("font", Eq), ("color", Eq)])),
    ("Timeline", ByItem TimelineDef.Respelled)]

section Scalars

theorem RespelledScalar.isReadable {v w : Json} (h : RespelledScalar v w) : v.isReadable = w.isReadable := by
  cases h <;> rfl

theorem decodeScalar_ignores : Decoder.Ignores decodeScalar RespelledScalar := by
  intro v w h
  cases h with
  | same => rfl
  | spelled n _ greatest =>
    have htext : integerText n = toString n := if_pos greatest
    simp [decodeScalar, isReadable, fault?, scalarText?, htext]

theorem decodeOptionalScalar_ignores : Decoder.Ignores decodeOptionalScalar RespelledScalar := by
  intro v w h
  cases h with
  | same => rfl
  | spelled n least greatest =>
    exact congrArg (Except.map some) (decodeScalar_ignores _ _ (.spelled n least greatest))

theorem decodeWord_ignores : Decoder.Ignores decodeWord RespelledScalar := by
  intro v w h
  rw [decodeWord, decodeWord, decodeScalar_ignores v w h]

end Scalars

section Records

variable {σ α : Type} {name : String} {decode : Decoder α} {set : α → σ → σ} {R : Exchange}

theorem optional_ignores (hd : decode.Ignores R) :
    ∀ v w, R v w → (Field.optional name decode set).decode v = (Field.optional name decode set).decode w := by
  intro v w h
  funext s
  exact congrArg (Except.map (set · s)) (hd v w h)

theorem mandatory_ignores (hd : decode.Ignores R) :
    ∀ v w, R v w → (Field.mandatory name decode set).decode v = (Field.mandatory name decode set).decode w :=
  @optional_ignores _ _ name _ _ _ hd

theorem CommandDef.ignores : Decoder.Ignores CommandDef.record.decode CommandDef.Respelled :=
  Record.decode_ignores <|
    .cons ⟨rfl, mandatory_ignores decodeScalar_ignores⟩ <|
    .cons ⟨rfl, optional_ignores decodeOptionalScalar_ignores⟩ <|
    .cons ⟨rfl, optional_ignores decodeOptionalScalar_ignores⟩ <|
    .cons ⟨rfl, optional_ignores decodeOptionalScalar_ignores⟩ <|
    .cons ⟨rfl, optional_ignores decodeOptionalScalar_ignores⟩ <|
    .cons ⟨rfl, optional_ignores (Decoder.ignores_eq _)⟩ .nil

theorem FrameDef.ignores : Decoder.Ignores FrameDef.record.decode FrameDef.Respelled :=
  Record.decode_ignores <|
    .cons ⟨rfl, optional_ignores decodeOptionalScalar_ignores⟩ <|
    .cons ⟨rfl, optional_ignores (decodeList_ignores CommandDef.ignores)⟩ .nil

theorem TimelineDef.ignores : Decoder.Ignores TimelineDef.record.decode TimelineDef.Respelled :=
  Record.decode_ignores <|
    .cons ⟨rfl, optional_ignores decodeOptionalScalar_ignores⟩ <|
    .cons ⟨rfl, optional_ignores (decodeList_ignores FrameDef.ignores)⟩ .nil

end Records

section Entries

variable {α : Type} {ps : List (String × Exchange)} {ms ns : List (String × Json)}

theorem isReadable_of_exchangeAt (hp : ∀ p ∈ ps, ∀ v w, p.2 v w → v.isReadable = w.isReadable)
    {key : String} {v w : Json} (h : exchangeAt ps key v w) : v.isReadable = w.isReadable := by
  unfold exchangeAt at h
  cases hfound : ps.lookup key with
  | none =>
    rw [hfound] at h
    exact congrArg isReadable h
  | some R =>
    rw [hfound] at h
    obtain ⟨before, after, rfl, -⟩ := List.lookup_eq_some_iff.mp hfound
    exact hp (key, R) (by simp) v w h

/-- The character id is found alike among the members, and the others may still be exchanged. -/
theorem splitEntry_congr (hp : ∀ p ∈ ps, ∀ v w, p.2 v w → v.isReadable = w.isReadable)
    (h : Memberwise (("charid", RespelledScalar) :: ps) ms ns) (charid : Option String) :
    (∃ e, splitEntry charid ms = .error e ∧ splitEntry charid ns = .error e) ∨
    ∃ found ms' ns', splitEntry charid ms = .ok (found, ms') ∧
      splitEntry charid ns = .ok (found, ns') ∧ Memberwise ps ms' ns' := by
  induction h generalizing charid with
  | nil => exact .inr ⟨charid, [], [], rfl, rfl, .nil⟩
  | @cons m n ms ns hmn _ ih =>
    obtain ⟨key, v⟩ := m
    obtain ⟨key', w⟩ := n
    obtain ⟨rfl, hvw⟩ : key = key' ∧ exchangeAt (("charid", RespelledScalar) :: ps) key v w := hmn
    rw [splitEntry, splitEntry]
    by_cases hkey : key = "charid"
    · subst hkey
      have hscalar : decodeScalar v = decodeScalar w := decodeScalar_ignores v w hvw
      simp only [if_true, hscalar]
      cases charid with
      | some text => exact .inl ⟨_, rfl, rfl⟩
      | none =>
        cases decodeScalar w with
        | error e => exact .inl ⟨e, rfl, rfl⟩
        | ok text => exact ih (some text)
    · rw [exchangeAt_cons, if_neg hkey] at hvw
      simp only [if_neg hkey, isReadable_of_exchangeAt hp hvw]
      split
      · rcases ih charid with ⟨e, hms, hns⟩ | ⟨found, ms', ns', hms, hns, hrest⟩
        · exact .inl ⟨e, by rw [hms]; rfl, by rw [hns]; rfl⟩
        · exact .inr ⟨found, (key, v) :: ms', (key, w) :: ns', by rw [hms]; rfl, by rw [hns]; rfl,
            .cons ⟨rfl, hvw⟩ hrest⟩
      · exact .inl ⟨.malformed, rfl, rfl⟩

theorem Entry.ignores (asset : Record α) (ps : List (String × Exchange))
    (hasset : Record.Suits asset.fields ps)
    (hp : ∀ p ∈ ps, ∀ v w, p.2 v w → v.isReadable = w.isReadable) :
    Decoder.Ignores (Entry.decode asset) (Entry.Respelled ps) := by
  intro v w h
  cases h with
  | same => rfl
  | @members ms ns cut h =>
    rw [Entry.decode, Entry.decode]
    rcases splitEntry_congr hp h none with ⟨e, hms, hns⟩ | ⟨found, ms', ns', hms, hns, hrest⟩
    · rw [hms, hns]
    · have hread := Record.decode_ignores hasset (.object ms') (.object ns') (.members hrest)
      simp only [hms, hns, hread]

theorem isReadable_of_eq (names : List String) :
    ∀ p ∈ names.map fun name => (name, (Eq : Exchange)), ∀ v w, p.2 v w → v.isReadable = w.isReadable := by
  intro p hp v w h
  obtain ⟨name, -, rfl⟩ := List.mem_map.mp hp
  exact congrArg isReadable h

end Entries

theorem DocumentDef.ignores : Decoder.Ignores DocumentDef.record.decode DocumentDef.Respelled := by
  have hshape := Entry.ignores Shape.record [("path", Eq)]
    (.cons ⟨rfl, optional_ignores (Decoder.ignores_eq _)⟩ .nil) (isReadable_of_eq ["path"])
  have hbitmap := Entry.ignores Bitmap.record bitmapPositions
    (.cons ⟨rfl, mandatory_ignores decodeWord_ignores⟩ <|
      .cons ⟨rfl, mandatory_ignores decodeWord_ignores⟩ <|
      .cons ⟨rfl, mandatory_ignores (Decoder.ignores_eq _)⟩ .nil)
    (by
      simp only [bitmapPositions, List.forall_mem_cons]
      exact ⟨fun _ _ => RespelledScalar.isReadable, fun _ _ => RespelledScalar.isReadable,
        fun _ _ => congrArg isReadable, by simp⟩)
  have hsound := Entry.ignores Sound.record [("soundPath", Eq)]
    (.cons ⟨rfl, mandatory_ignores (Decoder.ignores_eq _)⟩ .nil) (isReadable_of_eq ["soundPath"])
  have hcaption := Entry.ignores Caption.record
    [("displayText", Eq), ("font", Eq), ("color", Eq)]
    (.cons ⟨rfl, mandatory_ignores (Decoder.ignores_eq _)⟩ <|
      .cons ⟨rfl, optional_ignores (Decoder.ignores_eq _)⟩ <|
      .cons ⟨rfl, optional_ignores (Decoder.ignores_eq _)⟩ .nil)
    (isReadable_of_eq ["displayText", "font", "color"])
  exact Record.decode_ignores <|
    .cons ⟨rfl, optional_ignores (decodeList_ignores hshape)⟩ <|
    .cons ⟨rfl, optional_ignores (decodeList_ignores hbitmap)⟩ <|
    .cons ⟨rfl, optional_ignores (decodeList_ignores hsound)⟩ <|
    .cons ⟨rfl, optional_ignores (decodeList_ignores hcaption)⟩ <|
    .cons ⟨rfl, optional_ignores (decodeList_ignores TimelineDef.ignores)⟩ .nil

/-- Documents whose scalars are respelled are the same document, or are refused for the same reason. -/
theorem DocumentDef.decode_respelled :
    (∀ v w, DocumentDef.Respelled v w →
      DocumentDef.record.decode v = DocumentDef.record.decode w) ∧
    (∀ s t, DocumentDef.Respelled (read s).value (read t).value → (read s).hasMore = (read t).hasMore →
      decodeText DocumentDef.record.decode s = decodeText DocumentDef.record.decode t ∧
      Document.read s = Document.read t) ∧
    ∀ hole, CommandDef.VisibilityHole hole → ∀ v, IsScalar v → ∀ c,
      CommandDef.record.decode (hole v) = .ok c →
      (∀ w, IsScalar w → CommandDef.record.decode (hole w) = .ok (c.withVisibility (text? w))) ∧
      (c.cmdType = "UpdateVisibility" → ∃ visible,
        c.compile = c.object.map (fun object => .known (.setVisible object visible)) ∧
        (visible = true ↔ v = .string "true")) := by
  refine ⟨DocumentDef.ignores, fun s t h hmore => ?_, fun hole hh v hv c hc =>
    ⟨fun w hw => ?_, fun htype => ?_⟩⟩
  · have htext : decodeText DocumentDef.record.decode s = decodeText DocumentDef.record.decode t := by
      simp only [decodeText, DocumentDef.ignores _ _ h, hmore]
    exact ⟨htext, by rw [Document.read, Document.read, htext]⟩
  · exact (hh.decode_of_ok hv hw hc).2
  · have hvisible := (hh.decode_of_ok hv hv hc).1
    exact ⟨isVisible c.visibility, CommandDef.compile_visible htype, by rw [hvisible, isVisible_text?]⟩

section Sample

def bitmapEntry (scalar : Int → Json) : Json :=
  .object [("charid", scalar 1), ("width", scalar 64), ("height", scalar 32),
    ("bitmapPath", .string "hill.png")]

def showCommand (scalar : Int → Json) : Json :=
  .object [("cmdType", .string "UpdateVisibility"), ("objectId", scalar 7), ("visibility", .string "true")]

def showDef : CommandDef :=
  { cmdType := "UpdateVisibility", objectId := some "7", visibility := some "true" }

def bitmapDocument (scalar : Int → Json) : Json :=
  .object [("Bitmaps", .array [bitmapEntry scalar]),
    ("Timeline", .array [.object [("Frame", .array [
      .object [("num", scalar 1), ("Command", .array [showCommand scalar])]])]])]

theorem plain_bitmapDocument (scalar : Int → Json)
    (h : ∀ depth n, n ∈ [1, 7, 32, 64] → Plain depth (scalar n)) : Plain 0 (bitmapDocument scalar) := by
  simp [bitmapDocument, bitmapEntry, showCommand, depthLimit, h]

def spelled (n : Int) : Json :=
  .string (toString n)

theorem bitmapDocument_respelled : DocumentDef.Respelled (bitmapDocument .int) (bitmapDocument spelled) := by
  have hscalar : ∀ n ∈ [1, 7, 32, 64], RespelledScalar (.int n) (spelled n) := by
    have hrange : ∀ n ∈ [(1 : Int), 7, 32, 64],
        Int64.minValue.toInt ≤ n ∧ n ≤ Int64.maxValue.toInt := by decide
    exact fun n hn => .spelled n (hrange n hn).1 (hrange n hn).2
  have hbitmap : Entry.Respelled bitmapPositions (bitmapEntry .int) (bitmapEntry spelled) :=
    .members <| .cons ⟨rfl, hscalar 1 (by simp)⟩ <| .cons ⟨rfl, hscalar 64 (by simp)⟩ <|
      .cons ⟨rfl, hscalar 32 (by simp)⟩ <| .cons ⟨rfl, rfl⟩ .nil
  have hcommand : CommandDef.Respelled (showCommand .int) (showCommand spelled) :=
    .members <| .cons ⟨rfl, .same _⟩ <| .cons ⟨rfl, hscalar 7 (by simp)⟩ <| .cons ⟨rfl, rfl⟩ .nil
  exact .members <| .cons ⟨rfl, .items <| .cons hbitmap .nil⟩ <| .cons ⟨rfl, .items <| .cons (.members <|
    .cons ⟨rfl, .items <| .cons (.members <| .cons ⟨rfl, hscalar 1 (by simp)⟩ <|
      .cons ⟨rfl, .items <| .cons hcommand .nil⟩ .nil) .nil⟩ .nil) .nil⟩ .nil

/-- The texts with numbers and with strings hold the same document, in which object 7 is shown. -/
theorem bitmapDocument_alike :
    (∃ d, decodeText DocumentDef.record.decode (bitmapDocument .int).compact = .ok d ∧
      decodeText DocumentDef.record.decode (bitmapDocument spelled).compact = .ok d ∧
      d.bitmaps = [⟨"1", ⟨64, 32, "hill.png"⟩⟩]) ∧
    Document.read (bitmapDocument .int).compact = Document.read (bitmapDocument spelled).compact ∧
    CommandDef.record.decode (showCommand .int) = .ok showDef ∧
    ∃ visible, showDef.compile = .ok (.known (.setVisible ⟨7⟩ visible)) ∧ visible = true := by
  obtain ⟨-, htexts, hvisible⟩ := DocumentDef.decode_respelled
  have hint := (plain_bitmapDocument .int (by simp)).read_write compact (by simp)
  have hspelled := (plain_bitmapDocument spelled (by simp [spelled])).read_write compact (by simp)
  obtain ⟨hsame, hload⟩ := htexts (bitmapDocument .int).compact (bitmapDocument spelled).compact
    (by rw [hint, hspelled]; exact bitmapDocument_respelled) (by rw [hint, hspelled])
  have hdocument : DocumentDef.record.decode (bitmapDocument spelled) =
      .ok { bitmaps := [⟨"1", ⟨64, 32, "hill.png"⟩⟩],
            timelines := [⟨none, [⟨some "1", [showDef]⟩]⟩] } := rfl
  have htext := decodeText_of_read hspelled hdocument
  have hdecode : CommandDef.record.decode (showCommand .int) = .ok showDef := rfl
  have hhole : CommandDef.VisibilityHole fun v =>
      .object ([("cmdType", .string "UpdateVisibility"), ("objectId", .int 7)] ++ [("visibility", v)]) :=
    .member _ [] none
  obtain ⟨-, hshown⟩ := hvisible _ hhole (.string "true") trivial _ hdecode
  obtain ⟨visible, hcompile, htrue⟩ := hshown rfl
  have hword : readWord "7" = .ok 7 := Decimal.readWord_toString 7
  simp only [CommandDef.object, showDef, ObjectId.read, readId, hword] at hcompile
  exact ⟨⟨_, hsame.trans htext, htext, rfl⟩, hload, hdecode, visible, hcompile, htrue.mpr rfl⟩

end Sample

end SceneReel.Descriptor
