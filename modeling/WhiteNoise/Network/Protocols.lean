import WhiteNoise.Message.Codec
import WhiteNoise.Stream.StartPoll

/-! # The request codecs

The proxy, command and acknowledgement protocols carry one message behind its
length. A frame without contents is an error to the reader, though a message
whose fields are all at their defaults is written as one, and contents that
do not decode are a failing unwrap.
-/

namespace WhiteNoise.Protocols

open Wire ProtoMessage

/-! ## Reading and writing a request -/

/-- `8 * 1024 * 1024` -/
def maxSize : ℕ := 8388608

/-- How `read_request` ends: its `io::Result`, whose errors are all `InvalidData` and may have a
source, or a failing unwrap. -/
inductive Outcome (M : Type) where
  | ok (m : M)
  | invalidData (source : Option ReadOneError)
  | panicked
  deriving DecidableEq

section Generic

variable [Codec] {M : Type} [ProtoMessage M]

/-- `read_request` on the bytes of a substream and whether it has ended; `none` is pending. -/
def readRequest (M : Type) [ProtoMessage M] (R : Stream.Reader) (b : Bytes) (eof : Bool) :
    Option (Outcome M) :=
  match R.readOne maxSize b eof with
  | none => none
  | some (.error e, _) => some (.invalidData (some e))
  | some (.ok vec, _) =>
    if vec = [] then some (.invalidData none)
    else
      match Codec.decode vec with
      | none => some .panicked
      | some m => some (.ok m)

/-- The bytes that `write_request` puts on the substream. -/
def writeRequest (m : M) : Bytes := Stream.frame (Codec.encode m)

/-- A frame that is read has no contents or contents that decode. -/
def Legible (M : Type) [ProtoMessage M] (R : Stream.Reader) (b : Bytes) (eof : Bool) : Prop :=
  ∀ vec rest, R.readOne maxSize b eof = some (.ok vec, rest) →
    vec = [] ∨ (Codec.decode vec : Option M).isSome

/-- A message is written as an empty frame if it has no fields to write. -/
theorem encode_eq_nil_iff {m : M} : Codec.encode m = [] ↔ fields m = [] := by
  rw [← List.length_eq_zero_iff, Codec.length_encode]
  constructor
  · intro h
    cases hf : fields m with
    | nil => rfl
    | cons f fs =>
      have hpos := List.length_pos_iff.mpr f.encode_ne_nil
      rw [hf, Record.size_cons, ← Field.length_encode] at h
      omega
  · intro h
    rw [h, Record.size_nil]

theorem readRequest_writeRequest_iff {R : Stream.Reader} {m : M} {eof : Bool}
    (hsize : (Codec.encode m).length ≤ maxSize) :
    readRequest M R (writeRequest m) eof = some (.ok m) ↔ fields m ≠ [] := by
  have hread := R.whole [] eof hsize
  rw [List.append_nil] at hread
  rw [readRequest, writeRequest, hread, Ne, ← encode_eq_nil_iff]
  constructor
  · intro h hnil
    simp [hnil] at h
  · intro h
    simp [h]

theorem readRequest_ne_panicked_iff {R : Stream.Reader} {b : Bytes} {eof : Bool} :
    readRequest M R b eof ≠ some .panicked ↔ Legible M R b eof := by
  unfold readRequest Legible
  constructor
  · intro h vec rest hread
    rw [hread] at h
    by_cases hvec : vec = []
    · exact Or.inl hvec
    · right
      cases hdec : (Codec.decode vec : Option M) with
      | none => simp [hvec, hdec] at h
      | some m => rfl
  · intro h
    cases hread : R.readOne maxSize b eof with
    | none => simp
    | some x =>
      obtain ⟨res, rest⟩ := x
      cases res with
      | error e => simp
      | ok vec =>
        rcases h vec rest hread with rfl | hdec
        · simp
        · obtain ⟨m, hm⟩ := Option.isSome_iff_exists.mp hdec
          by_cases hvec : vec = []
          · simp [hvec]
          · simp [hvec, hm]

end Generic

/-! ## The three codecs -/

section Codecs

variable [Codec]

/-- `ProxyCodec::read_request` -/
def ProxyCodec.readRequest : Stream.Reader → Bytes → Bool → Option (Outcome Request) :=
  Protocols.readRequest Request

/-- `ProxyCodec::write_request` -/
def ProxyCodec.writeRequest : Request → Bytes := Protocols.writeRequest

/-- `CmdCodec::read_request` -/
def CmdCodec.readRequest : Stream.Reader → Bytes → Bool → Option (Outcome Command) :=
  Protocols.readRequest Command

/-- `CmdCodec::write_request` -/
def CmdCodec.writeRequest : Command → Bytes := Protocols.writeRequest

/-- `AckCodec::read_request` -/
def AckCodec.readRequest : Stream.Reader → Bytes → Bool → Option (Outcome Ack) :=
  Protocols.readRequest Ack

/-- `AckCodec::write_request` -/
def AckCodec.writeRequest : Ack → Bytes := Protocols.writeRequest

end Codecs

theorem utf8_eq_nil_iff {s : String} : utf8 s = [] ↔ s = "" := by
  constructor
  · intro h
    have hs := ofUtf8_utf8 s
    rw [h] at hs
    have hempty := ofUtf8_utf8 ""
    exact Option.some.inj (hs.symm.trans hempty)
  · rintro rfl
    rfl

theorem fields_request_iff {r : Request} : fields r = [] ↔ r = ⟨"", "", 0, []⟩ := by
  obtain ⟨reqId, fromId, reqtype, data⟩ := r
  simp [fields, Field.string, Field.bytes, Field.int32, utf8_eq_nil_iff]

theorem fields_command_iff {c : Command} : fields c = [] ↔ c = ⟨"", 0, "", []⟩ := by
  obtain ⟨commandId, type, fromId, data⟩ := c
  simp [fields, Field.string, Field.bytes, Field.int32, utf8_eq_nil_iff]

theorem fields_ack_iff {a : Ack} : fields a = [] ↔ a = ⟨"", false, []⟩ := by
  obtain ⟨commandId, result, data⟩ := a
  simp [fields, Field.string, Field.bytes, Field.bool, utf8_eq_nil_iff]

/-- A request within the limit comes back exactly when some field of it is not at its default, and a
reader panics exactly at a frame with contents that do not decode. -/
theorem request_codecs [Codec] (R : Stream.Reader) (eof : Bool) :
    (∀ r, (Codec.encode r).length ≤ maxSize →
      (ProxyCodec.readRequest R (ProxyCodec.writeRequest r) eof = some (.ok r) ↔
        r ≠ ⟨"", "", 0, []⟩)) ∧
    (∀ c, (Codec.encode c).length ≤ maxSize →
      (CmdCodec.readRequest R (CmdCodec.writeRequest c) eof = some (.ok c) ↔
        c ≠ ⟨"", 0, "", []⟩)) ∧
    (∀ a, (Codec.encode a).length ≤ maxSize →
      (AckCodec.readRequest R (AckCodec.writeRequest a) eof = some (.ok a) ↔
        a ≠ ⟨"", false, []⟩)) ∧
    ∀ b, (ProxyCodec.readRequest R b eof ≠ some .panicked ↔ Legible Request R b eof) ∧
      (CmdCodec.readRequest R b eof ≠ some .panicked ↔ Legible Command R b eof) ∧
      (AckCodec.readRequest R b eof ≠ some .panicked ↔ Legible Ack R b eof) := by
  refine ⟨?_, ?_, ?_, ?_⟩
  · intro r hsize
    rw [Ne, ← fields_request_iff]
    exact readRequest_writeRequest_iff hsize
  · intro c hsize
    rw [Ne, ← fields_command_iff]
    exact readRequest_writeRequest_iff hsize
  · intro a hsize
    rw [Ne, ← fields_ack_iff]
    exact readRequest_writeRequest_iff hsize
  · intro b
    exact ⟨readRequest_ne_panicked_iff, readRequest_ne_panicked_iff, readRequest_ne_panicked_iff⟩

theorem request_codecs_sample :
    AckCodec.readRequest .lengthPrefixed (AckCodec.writeRequest ⟨"id", true, [7]⟩) true =
      some (.ok ⟨"id", true, [7]⟩) :=
  ((request_codecs .lengthPrefixed true).2.2.1 ⟨"id", true, [7]⟩ (by decide +kernel)).mpr (by decide)

/-- A request at its defaults is written but not read, and one byte that is no message is a panic. -/
theorem not_request_codecs :
    ProxyCodec.readRequest .lengthPrefixed (ProxyCodec.writeRequest ⟨"", "", 0, []⟩) true =
        some (.invalidData none) ∧
      ProxyCodec.readRequest .lengthPrefixed (Stream.frame [255]) true = some .panicked := by
  decide +kernel

end WhiteNoise.Protocols
