import SceneReel.Descriptor.Document
import SceneReel.Proofs.Json.ReadBack
import SceneReel.Proofs.Json.Written

/-!
Documents that are written and read back. The writer of each record leads the reader of the record through
its fields to the record itself, and the text in between loses nothing.
-/
namespace SceneReel.Descriptor

open Json Asset

/-- A member for a value that may be absent, where absence is what stands in the record anyway. -/
theorem fills_optionalMember {σ : Type} {name : String} {decode : Decoder (Option String)}
    {set : Option String → σ → σ} {fields : List (Json.Field σ)} {ms : List (String × Json)} {s u : σ}
    (h : ∀ x, decode (.string x) = .ok (some x)) {value : Option String} (hnone : set none s = s)
    (rest : Fills fields ms (set value s) u) :
    Fills (.optional name decode set :: fields) (optionalMember name value ++ ms) s u := by
  cases value with
  | none => exact .absent rfl (by rwa [hnone] at rest)
  | some x => exact .optional (h x) rest

section Scalars

theorem decodeString_inverts : Decoder.Inverts decodeString .string :=
  fun _ => rfl

theorem decodeScalar_inverts : Decoder.Inverts decodeScalar .string :=
  fun _ => rfl

theorem decodeOptionalScalar_string (s : String) : decodeOptionalScalar (.string s) = .ok (some s) := rfl

theorem decodeOptionalString_string (s : String) : decodeOptionalString (.string s) = .ok (some s) := rfl

theorem decodeStringOnly_string (s : String) : decodeStringOnly (.string s) = .ok (some s) := rfl

theorem decodeWord_inverts : Decoder.Inverts decodeWord fun w => .int w.toNat := by
  intro w
  have hlt : w.toNat < 4294967296 := w.toNat_lt_size
  have hsmall : (w.toNat : Int) ≤ Int64.maxValue.toInt := by
    change (w.toNat : Int) ≤ 9223372036854775807
    omega
  have htext : integerText w.toNat = toString w.toNat := if_pos hsmall
  have hscalar : decodeScalar (.int w.toNat) = .ok (toString w.toNat) := congrArg Except.ok htext
  rw [decodeWord, hscalar]
  exact congrArg (Except.mapError DecodeError.numeral) (Decimal.readWord_toString w)

end Scalars

section Timelines

theorem CommandDef.inverts : Decoder.Inverts CommandDef.record.decode CommandDef.toJson := by
  intro c
  have hfills : Fills CommandDef.record.fields (("cmdType", .string c.cmdType) ::
      (optionalMember "charid" c.charid ++ (optionalMember "objectId" c.objectId ++
        (optionalMember "placeAfter" c.placeAfter ++
          (optionalMember "transformMatrix" c.transformMatrix ++
            (optionalMember "visibility" c.visibility ++ [])))))) CommandDef.record.blank c :=
    Fills.mandatory (decodeScalar_inverts c.cmdType) <|
    fills_optionalMember decodeOptionalScalar_string rfl <|
    fills_optionalMember decodeOptionalScalar_string rfl <|
    fills_optionalMember decodeOptionalScalar_string rfl <|
    fills_optionalMember decodeOptionalScalar_string rfl <|
    fills_optionalMember decodeStringOnly_string rfl <| .nil c
  exact Record.decode_of_fills (by decide) (by simpa [toJson] using hfills)

theorem FrameDef.inverts : Decoder.Inverts FrameDef.record.decode FrameDef.toJson :=
  fun f => Record.decode_of_fills (by decide) <|
    fills_optionalMember decodeOptionalScalar_string rfl <|
    Fills.optional (CommandDef.inverts.list f.commands) <| .nil f

theorem TimelineDef.inverts : Decoder.Inverts TimelineDef.record.decode TimelineDef.toJson :=
  fun t => Record.decode_of_fills (by decide) <|
    fills_optionalMember decodeOptionalScalar_string rfl <|
    Fills.optional (FrameDef.inverts.list t.frames) <| .nil t

end Timelines

section Assets

theorem ShapePath.inverts : Decoder.Inverts ShapePath.record.decode ShapePath.toJson := by
  intro p
  have hfills : Fills ShapePath.record.fields (("d", .string p.d) ::
      (optionalMember "fill" p.fill ++ (optionalMember "color" p.color ++
        (optionalMember "stroke" p.stroke ++ (optionalMember "strokeWidth" p.strokeWidth ++
          (optionalMember "strokeLinecap" p.strokeLinecap ++
            (optionalMember "strokeLinejoin" p.strokeLinejoin ++
              (optionalMember "colorOpacity" p.colorOpacity ++ [])))))))) ShapePath.record.blank p :=
    Fills.optional (decodeString_inverts p.d) <|
    fills_optionalMember decodeOptionalString_string rfl <|
    fills_optionalMember decodeOptionalString_string rfl <|
    fills_optionalMember decodeOptionalString_string rfl <|
    fills_optionalMember decodeOptionalString_string rfl <|
    fills_optionalMember decodeOptionalString_string rfl <|
    fills_optionalMember decodeOptionalString_string rfl <|
    fills_optionalMember decodeOptionalString_string rfl <| .nil p
  exact Record.decode_of_fills (by decide) (by simpa [ShapePath.toJson] using hfills)

theorem Shape.inverts : Decoder.Inverts Shape.record.decode fun x => .object (Shape.members x) :=
  fun x => Record.decode_of_fills (by decide) <|
    Fills.optional (ShapePath.inverts.list x.paths) <| .nil x

theorem Bitmap.inverts : Decoder.Inverts Bitmap.record.decode fun x => .object (Bitmap.members x) :=
  fun x => Record.decode_of_fills (by decide) <|
    Fills.mandatory (decodeWord_inverts x.width) <|
    Fills.mandatory (decodeWord_inverts x.height) <|
    Fills.mandatory (decodeString_inverts x.bitmapPath) <| .nil x

theorem Caption.inverts : Decoder.Inverts Caption.record.decode fun x => .object (Caption.members x) :=
  fun x => Record.decode_of_fills (by decide) <|
    Fills.mandatory (decodeString_inverts x.displayText) <|
    Fills.optional (decodeString_inverts x.font) <|
    Fills.optional (decodeString_inverts x.color) <| .nil x

theorem Sound.inverts : Decoder.Inverts Sound.record.decode fun x => .object (Sound.members x) :=
  fun x => Record.decode_of_fills (by decide) <| Fills.mandatory (decodeString_inverts x.soundPath) <| .nil x

end Assets

section Plainness

variable {depth : Nat}

theorem plain_optionalMember (name : String) (value : Option String) :
    ∀ m ∈ optionalMember name value, Plain depth m.2 := by
  cases value with
  | none => simp [optionalMember]
  | some s => simp [optionalMember]

theorem plain_map {α : Type} {write : α → Json} (room : depth < depthLimit)
    (h : ∀ x, Plain (depth + 1) (write x)) (xs : List α) : Plain depth (.array (xs.map write)) :=
  .array room fun v hv => by
    obtain ⟨x, -, rfl⟩ := List.mem_map.mp hv
    exact h x

theorem CommandDef.plain (room : depth < depthLimit) (c : CommandDef) : Plain depth c.toJson := by
  refine .object room ?_
  simp only [List.forall_mem_cons, List.forall_mem_append]
  exact ⟨.string _ _, ⟨⟨⟨plain_optionalMember _ _, plain_optionalMember _ _⟩, plain_optionalMember _ _⟩,
    plain_optionalMember _ _⟩, plain_optionalMember _ _⟩

theorem FrameDef.plain (room : depth + 2 < depthLimit) (f : FrameDef) : Plain depth f.toJson := by
  refine .object (by omega) ?_
  simp only [List.forall_mem_append, List.forall_mem_singleton]
  exact ⟨plain_optionalMember _ _, plain_map (by omega) (CommandDef.plain room) _⟩

theorem TimelineDef.plain (room : depth + 4 < depthLimit) (t : TimelineDef) : Plain depth t.toJson := by
  refine .object (by omega) ?_
  simp only [List.forall_mem_append, List.forall_mem_singleton]
  exact ⟨plain_optionalMember _ _, plain_map (by omega) (FrameDef.plain room) _⟩

theorem ShapePath.plain (room : depth < depthLimit) (p : ShapePath) : Plain depth p.toJson := by
  refine .object room ?_
  simp only [List.forall_mem_cons, List.forall_mem_append]
  exact ⟨.string _ _, ⟨⟨⟨⟨⟨plain_optionalMember _ _, plain_optionalMember _ _⟩, plain_optionalMember _ _⟩,
    plain_optionalMember _ _⟩, plain_optionalMember _ _⟩, plain_optionalMember _ _⟩, plain_optionalMember _ _⟩

theorem plain_word (w : UInt32) : Plain depth (.int w.toNat) := by
  have hlt : w.toNat < 4294967296 := w.toNat_lt_size
  refine .int depth ?_ ?_
  · change (-9223372036854775808 : Int) ≤ w.toNat
    omega
  · change (w.toNat : Int) < 18446744073709551616
    omega

theorem Shape.plain (room : depth + 1 < depthLimit) (x : Shape) : ∀ m ∈ Shape.members x, Plain depth m.2 := by
  simpa [Shape.members] using plain_map (by omega) (ShapePath.plain room) x.paths

theorem Bitmap.plain (x : Bitmap) : ∀ m ∈ Bitmap.members x, Plain depth m.2 := by
  simp only [Bitmap.members, List.forall_mem_cons]
  exact ⟨plain_word _, plain_word _, .string _ _, by simp⟩

theorem Caption.plain (x : Caption) : ∀ m ∈ Caption.members x, Plain depth m.2 := by
  simp [Caption.members]

theorem Sound.plain (x : Sound) : ∀ m ∈ Sound.members x, Plain depth m.2 := by
  simp [Sound.members]

end Plainness

section Entries

variable {α : Type} {asset : Record α} {members : α → List (String × Json)}

theorem splitEntry_of_readable (charid : Option String) {ms : List (String × Json)}
    (h : ∀ m ∈ ms, m.1 ≠ "charid" ∧ m.2.isReadable = true) : splitEntry charid ms = .ok (charid, ms) := by
  induction ms with
  | nil => rfl
  | cons m ms ih =>
    obtain ⟨⟨hkey, hreadable⟩, hms⟩ := List.forall_mem_cons.mp h
    rw [splitEntry, if_neg hkey, if_pos hreadable, ih hms]
    rfl

theorem Entry.inverts (depth : Nat) (hasset : asset.decode.Inverts fun x => .object (members x))
    (hkey : ∀ x, "charid" ∉ (members x).map Prod.fst) (hplain : ∀ x, ∀ m ∈ members x, Plain depth m.2) :
    Decoder.Inverts (Entry.decode asset) (Entry.toJson members) := by
  intro e
  have hmembers : ∀ m ∈ members e.asset, m.1 ≠ "charid" ∧ m.2.isReadable = true := fun m hm =>
    ⟨fun he => hkey e.asset (he ▸ List.mem_map_of_mem hm), (hplain e.asset m hm).isReadable⟩
  have hsplit : splitEntry none (("charid", .string e.charid) :: members e.asset) =
      .ok (some e.charid, members e.asset) :=
    splitEntry_of_readable (some e.charid) hmembers
  rw [Entry.toJson, Entry.decode, hsplit]
  exact congrArg (Except.map _) (hasset e.asset)

theorem Entry.plain {depth : Nat} (room : depth < depthLimit)
    (hplain : ∀ x, ∀ m ∈ members x, Plain (depth + 1) m.2) (e : Entry α) :
    Plain depth (Entry.toJson members e) :=
  .object room (List.forall_mem_cons.mpr ⟨.string _ _, hplain e.asset⟩)

end Entries

section Documents

theorem DocumentDef.inverts : Decoder.Inverts DocumentDef.record.decode DocumentDef.toJson := by
  intro d
  have hshape := Entry.inverts 3 Shape.inverts
    (fun _ => by simp [Shape.members]) (Shape.plain (by decide))
  have hbitmap := Entry.inverts 3 Bitmap.inverts
    (fun _ => by simp [Bitmap.members]) Bitmap.plain
  have hsound := Entry.inverts 3 Sound.inverts
    (fun _ => by simp [Sound.members]) Sound.plain
  have hcaption := Entry.inverts 3 Caption.inverts
    (fun _ => by simp [Caption.members]) Caption.plain
  exact Record.decode_of_fills (by decide) <|
    Fills.optional (hshape.list d.shapes) <|
    Fills.optional (hbitmap.list d.bitmaps) <|
    Fills.optional (hsound.list d.sounds) <|
    Fills.optional (hcaption.list d.texts) <|
    Fills.optional (TimelineDef.inverts.list d.timelines) <| .nil d

theorem DocumentDef.plain (d : DocumentDef) : Plain 0 d.toJson := by
  refine .object (by decide) ?_
  simp only [List.forall_mem_cons]
  exact ⟨plain_map (by decide) (Entry.plain (by decide) (Shape.plain (by decide))) _,
    plain_map (by decide) (Entry.plain (by decide) Bitmap.plain) _,
    plain_map (by decide) (Entry.plain (by decide) Sound.plain) _,
    plain_map (by decide) (Entry.plain (by decide) Caption.plain) _,
    plain_map (by decide) (TimelineDef.plain (by decide)) _, by simp⟩

/-- A document is read back from what is written of it, on one line or indented. -/
theorem DocumentDef.decodeText_write (write : Json → String) (hwrite : write ∈ [compact, pretty 0]) :
    (∀ d : DocumentDef, decodeText DocumentDef.record.decode (write d.toJson) = .ok d) ∧
    ∀ s d, decodeText DocumentDef.record.decode s = .ok d →
      decodeText DocumentDef.record.decode (write d.toJson) = decodeText DocumentDef.record.decode s ∧
      ∀ d', decodeText DocumentDef.record.decode (write d.toJson) = .ok d' →
        write d'.toJson = write d.toJson := by
  have hback (d : DocumentDef) : decodeText DocumentDef.record.decode (write d.toJson) = .ok d :=
    decodeText_of_read (d.plain.read_write write hwrite) (DocumentDef.inverts d)
  refine ⟨hback, fun s d hs => ⟨(hback d).trans hs.symm, fun d' hd' => ?_⟩⟩
  rw [hback d] at hd'
  cases hd'
  rfl

def bitmapNumbers : Json :=
  .object [("Bitmaps", .array [.object [("charid", .int 3), ("width", .int 4294967295), ("height", .int 0),
    ("bitmapPath", .string "a\tb")]])]

/-- The same document as its writer gives it has the character id as a string, and stays so. -/
theorem DocumentDef.decodeText_bitmapNumbers :
    pretty 0 ∈ [compact, pretty 0] ∧
    ∃ d : DocumentDef, d.bitmaps = [⟨"3", ⟨4294967295, 0, "a\tb"⟩⟩] ∧
      decodeText DocumentDef.record.decode bitmapNumbers.compact = .ok d ∧
      decodeText DocumentDef.record.decode (pretty 0 d.toJson) = .ok d := by
  have hwrite : pretty 0 ∈ [compact, pretty 0] := List.mem_cons_of_mem _ List.mem_cons_self
  have hplain : Plain 0 bitmapNumbers := by simp [bitmapNumbers, depthLimit]
  have hread : decodeText DocumentDef.record.decode bitmapNumbers.compact =
      .ok { bitmaps := [⟨"3", ⟨4294967295, 0, "a\tb"⟩⟩] } :=
    decodeText_of_read (hplain.read_write compact List.mem_cons_self) rfl
  have hback := (DocumentDef.decodeText_write (pretty 0) hwrite).2 _ _ hread
  exact ⟨hwrite, _, rfl, hread, hback.1.trans hread⟩

end Documents

end SceneReel.Descriptor
