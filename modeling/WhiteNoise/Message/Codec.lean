import WhiteNoise.Message.Proto

/-! # Encoding and decoding messages

Each message type has a field list that can be read back. A codec is what the
handlers use of the generated `encode` and `decode`; the wire format is one.
-/

namespace WhiteNoise

open Wire

/-! ## Fields -/

/-- The bytes of a string. -/
def utf8 (s : String) : Bytes := s.toByteArray.data.toList

def ofUtf8 (b : Bytes) : Option String := String.fromUTF8? ⟨b.toArray⟩

@[simp] theorem ofUtf8_utf8 (s : String) : ofUtf8 (utf8 s) = some s := by
  have hs : (⟨(utf8 s).toArray⟩ : ByteArray) = s.toByteArray := rfl
  rw [ofUtf8, hs, String.fromUTF8?, dif_pos s.isValidUTF8]
  rfl

theorem length_utf8_ofList {l : List Char} (h : ∀ c ∈ l, c.utf8Size = 1) :
    (utf8 (String.ofList l)).length = l.length := by
  have hl (l : List Char) : utf8 (String.ofList l) = l.flatMap String.utf8EncodeChar := by
    simp [utf8, List.utf8Encode]
  rw [hl]
  induction l with
  | nil => rfl
  | cons c l ih =>
    have hrest := ih fun c hc => h c (List.mem_cons_of_mem _ hc)
    rw [List.flatMap_cons, List.length_append, String.length_utf8EncodeChar,
      h c List.mem_cons_self, List.length_cons]
    omega

/-- A negative `int32` goes on the wire as its 64-bit two's complement. -/
def int32Bits (n : Int32) : ℕ := n.toInt64.toUInt64.toNat

def ofInt32Bits (n : ℕ) : Int32 := (UInt64.ofNat n).toInt64.toInt32

@[simp] theorem ofInt32Bits_int32Bits (n : Int32) : ofInt32Bits (int32Bits n) = n := by
  simp [ofInt32Bits, int32Bits]

namespace Field

def bytes (k : ℕ) (b : Bytes) : List Field := if b = [] then [] else [⟨k, .bytes b⟩]

def string (k : ℕ) (s : String) : List Field := bytes k (utf8 s)

def int32 (k : ℕ) (n : Int32) : List Field := if n = 0 then [] else [⟨k, .varint (int32Bits n)⟩]

def bool (k : ℕ) (b : Bool) : List Field := if b then [⟨k, .varint 1⟩] else []

def repeated (k : ℕ) (l : List Bytes) : List Field := l.map fun b => ⟨k, .bytes b⟩

/-- The occurrences of a field. -/
def select (k : ℕ) (fs : List Field) : List Field := fs.filter fun f => f.number = k

@[simp] theorem select_append (k : ℕ) (fs gs : List Field) :
    select k (fs ++ gs) = select k fs ++ select k gs := List.filter_append ..

@[simp] theorem select_bytes (k j : ℕ) (b : Bytes) :
    select k (bytes j b) = if j = k then bytes j b else [] := by
  unfold select bytes
  split <;> simp [List.filter_cons]

@[simp] theorem select_string (k j : ℕ) (s : String) :
    select k (string j s) = if j = k then string j s else [] := select_bytes ..

@[simp] theorem select_int32 (k j : ℕ) (n : Int32) :
    select k (int32 j n) = if j = k then int32 j n else [] := by
  unfold select int32
  split <;> simp [List.filter_cons]

@[simp] theorem select_bool (k j : ℕ) (b : Bool) :
    select k (bool j b) = if j = k then bool j b else [] := by
  unfold select bool
  split <;> simp [List.filter_cons]

@[simp] theorem select_repeated (k j : ℕ) (l : List Bytes) :
    select k (repeated j l) = if j = k then repeated j l else [] := by
  unfold select repeated
  split
  · next h => exact List.filter_eq_self.mpr (by simp [h])
  · next h => exact List.filter_eq_nil_iff.mpr (by simp [h])

def getBytes (fs : List Field) : Option Bytes :=
  match fs.getLast? with
  | none => some []
  | some ⟨_, .bytes b⟩ => some b
  | some ⟨_, .varint _⟩ => none

def getVarint (fs : List Field) : Option ℕ :=
  match fs.getLast? with
  | none => some 0
  | some ⟨_, .varint n⟩ => some n
  | some ⟨_, .bytes _⟩ => none

def getString (fs : List Field) : Option String := (getBytes fs).bind ofUtf8

def getInt32 (fs : List Field) : Option Int32 := (getVarint fs).map ofInt32Bits

def getBool (fs : List Field) : Option Bool := (getVarint fs).map (· != 0)

@[simp] theorem getBytes_bytes (k : ℕ) (b : Bytes) : getBytes (bytes k b) = some b := by
  unfold bytes
  split
  · next h => rw [h]; rfl
  · rfl

@[simp] theorem getString_string (k : ℕ) (s : String) : getString (string k s) = some s := by
  simp [getString, string]

@[simp] theorem getInt32_int32 (k : ℕ) (n : Int32) : getInt32 (int32 k n) = some n := by
  unfold int32
  split
  · next h => rw [h]; rfl
  · simp [getInt32, getVarint]

@[simp] theorem getBool_bool (k : ℕ) (b : Bool) : getBool (bool k b) = some b := by
  cases b <;> rfl

theorem size_bytes (k : ℕ) (b : Bytes) : Record.size (bytes k b) =
    if b = [] then 0 else Varint.size (k * 8 + 2) + (Varint.size b.length + b.length) := by
  unfold bytes
  split <;> rfl

/-- The payloads of a repeated field. -/
def getRepeated {α : Type} (g : Bytes → Option α) : List Field → Option (List α)
  | [] => some []
  | ⟨_, .bytes b⟩ :: fs =>
    match g b, getRepeated g fs with
    | some a, some l => some (a :: l)
    | _, _ => none
  | ⟨_, .varint _⟩ :: _ => none

theorem getRepeated_map {α : Type} {g : Bytes → Option α} {e : α → Bytes}
    (h : ∀ a, g (e a) = some a) (k : ℕ) (l : List α) :
    getRepeated g (repeated k (l.map e)) = some l := by
  induction l with
  | nil => rfl
  | cons a l ih =>
    simp only [repeated, List.map_cons] at ih ⊢
    simp only [getRepeated, h, ih]

end Field

/-- A message type, the fields its encoder writes in order, and how it is read back. -/
class ProtoMessage (M : Type) where
  fields : M → List Field
  ofFields : List Field → Option M
  ofFields_fields : ∀ m, ofFields (fields m) = some m

open WhiteNoise.Field ProtoMessage

instance : ProtoMessage Relay where
  fields m := string 1 m.id ++ int32 2 m.type ++ bytes 3 m.data ++ bytes 4 m.confusion
  ofFields fs := do
    some ⟨← getString (select 1 fs), ← getInt32 (select 2 fs), ← getBytes (select 3 fs),
      ← getBytes (select 4 fs)⟩
  ofFields_fields m := by simp

instance : ProtoMessage SetSessionIdMsg where
  fields m := string 1 m.sessionId ++ int32 2 m.role
  ofFields fs := do some ⟨← getString (select 1 fs), ← getInt32 (select 2 fs)⟩
  ofFields_fields m := by simp

instance : ProtoMessage RelayMsg where
  fields m := string 1 m.sessionId ++ bytes 2 m.data
  ofFields fs := do some ⟨← getString (select 1 fs), ← getBytes (select 2 fs)⟩
  ofFields_fields m := by simp

instance : ProtoMessage ProbeSignal where
  fields m := string 1 m.sessionId ++ bytes 2 m.data
  ofFields fs := do some ⟨← getString (select 1 fs), ← getBytes (select 2 fs)⟩
  ofFields_fields m := by simp

instance : ProtoMessage Disconnect where
  fields m := string 1 m.sessionId ++ int32 2 m.errCode
  ofFields fs := do some ⟨← getString (select 1 fs), ← getInt32 (select 2 fs)⟩
  ofFields_fields m := by simp

instance : ProtoMessage CircuitSuccess where
  fields m := string 1 m.sessionId
  ofFields fs := do some ⟨← getString (select 1 fs)⟩
  ofFields_fields m := by simp

instance : ProtoMessage Command where
  fields m := string 1 m.commandId ++ int32 2 m.type ++ string 3 m.fromId ++ bytes 4 m.data
  ofFields fs := do
    some ⟨← getString (select 1 fs), ← getInt32 (select 2 fs), ← getString (select 3 fs),
      ← getBytes (select 4 fs)⟩
  ofFields_fields m := by simp

instance : ProtoMessage SessionExpend where
  fields m := string 1 m.sessionId ++ string 2 m.peerId
  ofFields fs := do some ⟨← getString (select 1 fs), ← getString (select 2 fs)⟩
  ofFields_fields m := by simp

instance : ProtoMessage Ack where
  fields m := string 1 m.commandId ++ Field.bool 2 m.result ++ bytes 3 m.data
  ofFields fs := do
    some ⟨← getString (select 1 fs), ← getBool (select 2 fs), ← getBytes (select 3 fs)⟩
  ofFields_fields m := by simp

instance : ProtoMessage Request where
  fields m := string 1 m.reqId ++ string 2 m.fromId ++ int32 3 m.reqtype ++ bytes 4 m.data
  ofFields fs := do
    some ⟨← getString (select 1 fs), ← getString (select 2 fs), ← getInt32 (select 3 fs),
      ← getBytes (select 4 fs)⟩
  ofFields_fields m := by simp

instance : ProtoMessage NewCircuit where
  fields m := string 1 m.fromId ++ string 2 m.toId ++ string 3 m.sessionId
  ofFields fs := do
    some ⟨← getString (select 1 fs), ← getString (select 2 fs), ← getString (select 3 fs)⟩
  ofFields_fields m := by simp

instance : ProtoMessage NewProxy where
  fields m := string 1 m.time ++ string 2 m.whiteNoiseId
  ofFields fs := do some ⟨← getString (select 1 fs), ← getString (select 2 fs)⟩
  ofFields_fields m := by simp

instance : ProtoMessage Decrypt where
  fields m := string 1 m.destination ++ bytes 2 m.cypher
  ofFields fs := do some ⟨← getString (select 1 fs), ← getBytes (select 2 fs)⟩
  ofFields_fields m := by simp

instance : ProtoMessage NegPlaintext where
  fields m := string 1 m.sessionId ++ bytes 2 m.neg
  ofFields fs := do some ⟨← getString (select 1 fs), ← getBytes (select 2 fs)⟩
  ofFields_fields m := by simp

instance : ProtoMessage MainNetPeers where
  fields m := int32 1 m.max
  ofFields fs := do some ⟨← getInt32 (select 1 fs)⟩
  ofFields_fields m := by simp

instance : ProtoMessage NodeInfo where
  fields m := string 1 m.id ++ repeated 2 (m.addr.map utf8)
  ofFields fs := do some ⟨← getString (select 1 fs), ← getRepeated ofUtf8 (select 2 fs)⟩
  ofFields_fields m := by simp [getRepeated_map ofUtf8_utf8]

instance : ProtoMessage Negotiate where
  fields m := string 1 m.join ++ string 2 m.sessionId ++ string 3 m.destination ++ bytes 4 m.sig
  ofFields fs := do
    some ⟨← getString (select 1 fs), ← getString (select 2 fs), ← getString (select 3 fs),
      ← getBytes (select 4 fs)⟩
  ofFields_fields m := by simp

instance : ProtoMessage EncryptedNeg where
  fields m := string 1 m.des ++ bytes 2 m.cypher
  ofFields fs := do some ⟨← getString (select 1 fs), ← getBytes (select 2 fs)⟩
  ofFields_fields m := by simp

instance : ProtoMessage NoiseHandshakePayload where
  fields m := bytes 1 m.identityKey ++ bytes 2 m.identitySig ++ bytes 3 m.data
  ofFields fs := do
    some ⟨← getBytes (select 1 fs), ← getBytes (select 2 fs), ← getBytes (select 3 fs)⟩
  ofFields_fields m := by simp

/-! ## Codecs -/

/-- `Message::encode` and `Message::decode` of every message type. -/
class Codec where
  encode : {M : Type} → [ProtoMessage M] → M → Bytes
  decode : {M : Type} → [ProtoMessage M] → Bytes → Option M
  decode_encode : ∀ {M : Type} [ProtoMessage M] (m : M), decode (encode m) = some m
  length_encode : ∀ {M : Type} [ProtoMessage M] (m : M),
    (encode m).length = Record.size (fields m)

attribute [simp] Codec.decode_encode

theorem Codec.encode_injective [Codec] {M : Type} [ProtoMessage M] :
    Function.Injective (encode : M → Bytes) := by
  intro m m' h
  have hd := congrArg (decode (M := M)) h
  simpa using hd

/-- Decode the fields of a record and read the message back. -/
def decodeRecord {M : Type} [ProtoMessage M] (b : Bytes) : Option M :=
  match Record.decode b with
  | none => none
  | some fs => ofFields fs

theorem decodeRecord_encode {M : Type} [ProtoMessage M] (m : M) :
    decodeRecord (Record.encode (fields m)) = some m := by
  rw [decodeRecord, Record.decode_encode]
  exact ofFields_fields m

instance : ProtoMessage PeersList where
  fields m := repeated 1 (m.peers.map fun p => Record.encode (fields p))
  ofFields fs := do some ⟨← getRepeated decodeRecord (select 1 fs)⟩
  ofFields_fields m := by
    simp [getRepeated_map (decodeRecord_encode (M := NodeInfo))]

/-- The protocol buffer wire format is a codec. -/
instance (priority := low) wireCodec : Codec where
  encode m := Record.encode (fields m)
  decode b := decodeRecord b
  decode_encode := decodeRecord_encode
  length_encode _ := Record.length_encode _

end WhiteNoise
