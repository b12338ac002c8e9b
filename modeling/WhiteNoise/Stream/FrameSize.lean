import WhiteNoise.Network.Connection
import WhiteNoise.Network.RelayEventHandler
import WhiteNoise.Network.Ideal
import WhiteNoise.Stream.StartPoll

/-! # The size of the frames of a payload

A payload is encrypted, put behind its length into a `RelayMsg` and into a
frame, and every hop pads the frame anew by up to a tenth of its data. The
writer takes payloads of 65519 bytes, the reader of the next hop frames of 4096.
-/

namespace WhiteNoise.Stream

open Wire Process

section Generic

variable [Codec] [Crypto]

/-- The environment can answer the request so. -/
def Answers (a : Act) (r : a.Res) : Prop :=
  ∃ c s rep, Shared.reply a c s = some rep ∧ rep.answer = r

omit [Codec] in
theorem answers_randomBelow {n : ℕ} {b : Bytes} :
    Answers (.randomBelow n) b ↔ b.length < n := by
  constructor
  · rintro ⟨c, s, rep, h, rfl⟩
    cases c with
    | bytes b =>
      simp only [Shared.reply] at h
      split at h
      · next hlt =>
        cases h
        exact hlt
      · cases h
    | _ => cases h
  · intro hlt
    exact ⟨.bytes b, {}, ⟨b, {}, [], []⟩, if_pos hlt, rfl⟩

/-- The frame under the digest of its padded form. -/
def padded (relay : Relay) (confusion : Bytes) : Relay :=
  let relay := { relay with confusion := confusion }
  { relay with id := fromBytesGetId (Codec.encode relay) }

/-- The frames that travel for a payload: written at the sender, read and written again at every
hop. -/
inductive Carried (conn : CircuitConn) (payload : Bytes) : Bytes → Prop
  | sent {ws b} (h : (conn.write payload).Issues Answers (.write ws b)) : Carried conn payload b
  | forwarded {b b' relay stream sessionId ws} (hb : Carried conn payload b)
      (hd : Codec.decode b = some relay)
      (h : (relayEvent stream sessionId relay).Issues Answers (.write ws b')) :
      Carried conn payload b'

variable {relay : Relay} {ws stream : WrappedStream} {b payload : Bytes} {conn : CircuitConn}

theorem writeRelayArc_issues {α : Type} {g : String → Async α} :
    (writeRelayArc stream relay >>= g).Issues Answers (.write ws b) ↔
      ∃ confusion, confusion.length < confusionBound relay ∧
        (stream = ws ∧ Codec.encode (padded relay confusion) = b ∨
          (g (padded relay confusion).id).Issues Answers (.write ws b)) := by
  constructor
  · rintro (h | ⟨confusion, hc, h | ⟨_, -, h⟩⟩)
    · cases h
    · cases h
      exact ⟨confusion, answers_randomBelow.mp hc, Or.inl ⟨rfl, rfl⟩⟩
    · exact ⟨confusion, answers_randomBelow.mp hc, Or.inr h⟩
  · rintro ⟨confusion, hc, ⟨rfl, rfl⟩ | h⟩
    · exact Or.inr ⟨confusion, answers_randomBelow.mpr hc, Or.inl rfl⟩
    · exact Or.inr ⟨confusion, answers_randomBelow.mpr hc,
        Or.inr ⟨(), ⟨.go, {}, ⟨(), {}, [.write stream _], []⟩, rfl, rfl⟩, h⟩⟩

/-- The frame is written again with some padding. -/
def Rewritten (relay : Relay) (b : Bytes) : Prop :=
  ∃ confusion, confusion.length < confusionBound relay ∧
    b = Codec.encode (padded relay confusion)

theorem writeRelayArc_rewritten {α : Type} {a : α}
    (h : (writeRelayArc stream relay >>= fun _ => Prog.ret a).Issues Answers (.write ws b)) :
    Rewritten relay b := by
  obtain ⟨confusion, hc, ⟨-, rfl⟩ | h⟩ := writeRelayArc_issues.mp h
  · exact ⟨confusion, hc, rfl⟩
  · exact h.elim

theorem forwardRelay_rewritten {α : Type} {a : α} {session : Session} {id : ℕ}
    (h : (forwardRelay session id relay >>= fun _ => Prog.ret a).Issues Answers (.write ws b)) :
    Rewritten relay b := by
  unfold forwardRelay at h
  cases he : session.pairStream.earlyStream with
  | none => simp [he, Prog.Issues] at h
  | some early =>
    cases hl : session.pairStream.laterStream with
    | none =>
      simp only [he, hl, Prog.unwrap_some, Prog.unwrap_none, Prog.ret_bind, Prog.fail_bind] at h
      split at h <;> simp [Prog.Issues] at h
    | some later =>
      simp only [he, hl, Prog.unwrap_some, Prog.ret_bind] at h
      split at h
      · rw [Prog.bind_assoc] at h
        exact writeRelayArc_rewritten h
      · split at h
        · rw [Prog.bind_assoc] at h
          exact writeRelayArc_rewritten h
        · simp [Prog.Issues] at h

/-- A hop writes nothing for a data frame but the frame itself. -/
theorem relayEvent_rewritten {sessionId : Option String}
    (htype : relay.type = Relaytype.data.toI32)
    (h : (relayEvent stream sessionId relay).Issues Answers (.write ws b)) :
    Rewritten relay b := by
  simp only [relayEvent_data htype, Prog.pure_eq, handleRelayMsg] at h
  cases hd : (Codec.decode relay.data : Option RelayMsg) with
  | none => simp [hd, Prog.Issues] at h
  | some relayMsg =>
    simp only [hd, Async.getSession, Prog.read_bind, Prog.atomic_bind] at h
    obtain ⟨s, h⟩ := h
    cases hs : s.sessionMap relayMsg.sessionId with
    | none => simp [hs, Prog.Issues] at h
    | some session =>
      simp only [hs] at h
      split at h
      · obtain ⟨_, h⟩ := h
        exact h.elim
      · split at h
        · exact forwardRelay_rewritten h
        · exact h.elim

/-- What `CircuitConn::write` writes. -/
theorem write_issues :
    (conn.write payload).Issues Answers (.write ws b) ↔
      ∃ ref t t' msg, conn.transportState = some ref ∧
        Crypto.transportWrite t payload = some (t', msg) ∧ msg ≠ [] ∧ conn.outStream = ws ∧
        Rewritten (payloadRelay msg conn.id) b := by
  cases href : conn.transportState with
  | none => simp [CircuitConn.write, href, Prog.Issues]
  | some ref =>
    simp only [CircuitConn.write, href, writeTransport, writePayloadArc]
    constructor
    · rintro ⟨s, h⟩
      cases hs : (s.transports ref).bind (Crypto.transportWrite · payload) with
      | none => simp [hs, Prog.Issues] at h
      | some r =>
        obtain ⟨t, -, ht⟩ := Option.bind_eq_some_iff.mp hs
        simp only [hs, Prog.bind_eq, Prog.unwrap_some, Prog.ret_bind, Prog.pure_eq, ne_eq, not_true_eq_false,
          false_or] at h
        split at h
        · exact h.elim
        · next hlen =>
          have hne : r.2 ≠ [] := fun hnil => hlen (by rw [hnil, List.length_nil])
          obtain ⟨confusion, hc, ⟨hws, rfl⟩ | h⟩ := writeRelayArc_issues.mp h
          · exact ⟨ref, t, r.1, r.2, rfl, ht, hne, hws, confusion, hc, rfl⟩
          · exact h.elim
    · rintro ⟨ref', t, t', msg, href', ht, hne, rfl, confusion, hc, rfl⟩
      refine ⟨{ transports := fun _ => some t }, ?_⟩
      have hlen : msg.length ≠ 0 := fun hzero => hne (List.eq_nil_of_length_eq_zero hzero)
      simp only [Option.bind_some, ht, Prog.bind_eq, Prog.unwrap_some, Prog.ret_bind, Prog.pure_eq, ne_eq,
        not_true_eq_false, false_or, hlen, if_false]
      exact writeRelayArc_issues.mpr ⟨confusion, hc, Or.inl ⟨rfl, rfl⟩⟩

/-! ## Sizes -/

/-- Bytes of the `RelayMsg` of a payload of `n` bytes: 16 for the Noise tag, 2 for the length. -/
def relayMsgSize (n : ℕ) (sessionId : String) : ℕ :=
  Record.size (Field.string 1 sessionId) + (1 + (Varint.size (n + 18) + (n + 18)))

omit [Crypto] in
theorem length_payloadRelay {msg : Bytes} {n : ℕ} (h : msg.length = n + 16) (sessionId : String) :
    (payloadRelay msg sessionId).data.length = relayMsgSize n sessionId := by
  have hlen : (putU16 msg.length ++ msg).length = n + 18 := by
    simp [putU16, h]
  have hne : putU16 msg.length ++ msg ≠ [] := by simp [putU16]
  change (Codec.encode (_ : RelayMsg)).length = _
  rw [Codec.length_encode]
  simp only [ProtoMessage.fields, Record.size_append, Field.size_bytes 2, hne, if_false, hlen]
  rfl

/-- The parts of a padded data frame. -/
theorem length_padded (htype : relay.type = Relaytype.data.toI32) (confusion : Bytes) :
    (Codec.encode (padded relay confusion)).length =
      Record.size (Field.string 1 (padded relay confusion).id) + 2 +
        Record.size (Field.bytes 3 relay.data) + Record.size (Field.bytes 4 confusion) := by
  have hint : Record.size (Field.int32 2 relay.type) = 2 := by
    rw [htype]
    decide
  rw [Codec.length_encode]
  change Record.size (_ ++ Field.int32 2 relay.type ++ Field.bytes 3 relay.data ++
    Field.bytes 4 confusion) = _
  rw [Record.size_append, Record.size_append, Record.size_append, hint]

omit [Codec] [Crypto] in
theorem size_field_le {k n : ℕ} {b : Bytes} (hk : k < 16) (hb : b.length ≤ n) :
    Record.size (Field.bytes k b) ≤ 1 + (Varint.size n + n) := by
  rw [Field.size_bytes]
  split
  · exact Nat.zero_le _
  · rw [Varint.size_of_lt (by omega)]
    have hsize := Varint.size_mono hb
    omega

omit [Codec] [Crypto] in
theorem le_size_field {k n : ℕ} {b : Bytes} (hn : 0 < n) (hb : n ≤ b.length) :
    1 + (Varint.size n + b.length) ≤ Record.size (Field.bytes k b) := by
  have hne : b ≠ [] := by
    rintro rfl
    simp at hb
    omega
  rw [Field.size_bytes, if_neg hne]
  have hsize := Varint.size_mono hb
  have hpos := Varint.size_pos (k * 8 + 2)
  omega

/-- The longest frame of `3667` bytes of data is within the bound of the reader. -/
theorem length_padded_le {confusion : Bytes} (htype : relay.type = Relaytype.data.toI32)
    (hid : ∀ b, (utf8 (fromBytesGetId b)).length ≤ 44) (hdata : relay.data.length ≤ 3667)
    (hc : confusion.length < confusionBound relay) :
    (Codec.encode (padded relay confusion)).length ≤ readLimit := by
  have hc' : confusion.length ≤ 375 := by
    simp only [confusionBound, confusionMaxProportion, confusionPadLen] at hc
    omega
  have h₁ : Record.size (Field.string 1 (padded relay confusion).id) ≤ 1 + (Varint.size 44 + 44) :=
    size_field_le (by decide) (hid _)
  have h₂ := size_field_le (k := 3) (by decide) hdata
  have h₃ := size_field_le (k := 4) (by decide) hc'
  rw [Varint.size_of_lt (by decide)] at h₁
  rw [Varint.size_two (by decide) (by decide)] at h₂ h₃
  rw [length_padded htype, readLimit]
  omega

/-- The longest frame of more data, with a full identifier, is not. -/
theorem lt_length_padded {confusion : Bytes} (htype : relay.type = Relaytype.data.toI32)
    (hid : ∀ b, (utf8 (fromBytesGetId b)).length = 44) (hdata : 3667 < relay.data.length)
    (hc : confusionBound relay ≤ confusion.length + 1) :
    readLimit < (Codec.encode (padded relay confusion)).length := by
  have hc' : 375 ≤ confusion.length := by
    simp only [confusionBound, confusionMaxProportion, confusionPadLen] at hc
    omega
  have h₁ : 1 + (Varint.size 44 + _) ≤
      Record.size (Field.string 1 (padded relay confusion).id) :=
    le_size_field (by decide) (Nat.le_of_eq (hid _).symm)
  have h₂ := le_size_field (k := 3) (by decide) (Nat.succ_le_of_lt hdata)
  have h₃ := le_size_field (k := 4) (by decide) hc'
  have hlen : (utf8 (padded relay confusion).id).length = 44 := hid _
  rw [Varint.size_of_lt (by decide), hlen] at h₁
  rw [Varint.size_two (by decide) (by decide)] at h₂ h₃
  rw [length_padded htype, readLimit]
  omega

/-! ## All hops -/

/-- Every frame of a payload carries its encrypted bytes as they left the sender. -/
theorem Carried.data (hnoise : ∀ t p r, Crypto.transportWrite t p = some r →
      r.2.length = p.length + 16) (h : Carried conn payload b) :
    ∃ relay, relay.type = Relaytype.data.toI32 ∧
      relay.data.length = relayMsgSize payload.length conn.id ∧ Rewritten relay b := by
  induction h with
  | sent h =>
    obtain ⟨ref, t, t', msg, -, ht, -, -, hrewritten⟩ := write_issues.mp h
    exact ⟨payloadRelay msg conn.id, rfl, length_payloadRelay (hnoise _ _ _ ht) _, hrewritten⟩
  | forwarded hb hd h ih =>
    obtain ⟨relay, htype, hdata, confusion, hc, rfl⟩ := ih
    rw [Codec.decode_encode] at hd
    obtain rfl := Option.some.inj hd
    have htype' : (padded relay confusion).type = Relaytype.data.toI32 := htype
    exact ⟨padded relay confusion, htype', hdata, relayEvent_rewritten htype' h⟩

/-- The first frame of a payload, with any padding the sender can draw. -/
theorem carried_sent {ref : ℕ} {t t' : Crypto.Transport} {msg confusion : Bytes}
    (href : conn.transportState = some ref)
    (ht : Crypto.transportWrite t payload = some (t', msg)) (hmsg : msg ≠ [])
    (hc : confusion.length < confusionBound (payloadRelay msg conn.id)) :
    Carried conn payload (Codec.encode (padded (payloadRelay msg conn.id) confusion)) :=
  .sent (write_issues.mpr ⟨ref, t, t', msg, href, ht, hmsg, rfl, confusion, hc, rfl⟩)

omit [Codec] [Crypto] in
theorem confusionBound_pos : 0 < confusionBound relay := Nat.succ_pos _

end Generic

/-- For payloads of `n` bytes on circuits of the session: whatever the digests, with identifiers
of at most 44 characters, and whatever a cipher that adds a tag of 16 bytes, every frame of every
hop is within the bound of the reader. -/
def Fits [Codec] (n : ℕ) (sessionId : String) : Prop :=
  ∀ [Crypto], (∀ b, (utf8 (fromBytesGetId b)).length ≤ 44) →
    (∀ t p r, Crypto.transportWrite t p = some r → r.2.length = p.length + 16) →
    ∀ conn payload b, conn.id = sessionId → payload.length = n → Carried conn payload b →
      b.length ≤ readLimit

/-- SHA-256 in base 58 is such a digest. -/
theorem length_fromBytesGetId_le (b : Bytes) :
    (utf8 (@fromBytesGetId Ideal.crypto b)).length ≤ 44 := by
  change (utf8 (Base58.encode (Sha256.digest b))).length ≤ 44
  rw [Base58.encode, length_utf8_ofList, List.length_map]
  · exact Base58.length_encodeDigits_le (Sha256.length_digest b)
  · intro c hc
    obtain ⟨d, -, rfl⟩ := List.mem_map.mp hc
    exact Base58.utf8Size_digit d

/-- For a session identifier of 44 characters the bound is 3600 bytes. -/
theorem relayMsgSize_le_iff {n : ℕ} {sessionId : String} (h : (utf8 sessionId).length = 44) :
    relayMsgSize n sessionId ≤ 3667 ↔ n ≤ 3600 := by
  have hne : utf8 sessionId ≠ [] := by
    intro hnil
    rw [hnil] at h
    cases h
  have hid : Record.size (Field.string 1 sessionId) = 46 := by
    rw [Field.string, Field.size_bytes, if_neg hne, h]
    decide
  rw [relayMsgSize, hid]
  rcases Nat.lt_or_ge (n + 18) 128 with hlt | hge
  · rw [Varint.size_of_lt hlt]
    omega
  · rcases Nat.lt_or_ge (n + 18) 16384 with hlt | hge'
    · rw [Varint.size_two hge hlt]
      omega
    · omega

/-- A digest with identifiers of 44 characters. -/
abbrev longIds : Crypto :=
  { Ideal.crypto with bs58Encode := fun _ => String.ofList (List.replicate 44 'z') }

theorem longIds_length (b : Bytes) : (utf8 (@fromBytesGetId longIds b)).length = 44 := by
  change (utf8 (String.ofList (List.replicate 44 'z'))).length = 44
  decide

/-- A larger `RelayMsg` does not even pass the first hop. -/
theorem relayMsgSize_le_of_fits [Codec] {n : ℕ} {sessionId : String} (hn : n ≤ 65519)
    (h : Fits n sessionId) : relayMsgSize n sessionId ≤ 3667 := by
  let crypto := longIds
  by_contra hlt
  let conn : CircuitConn := ⟨sessionId, ⟨⟨""⟩, 0⟩, 0, some 0⟩
  let payload : Bytes := List.replicate n 0
  let msg := payload ++ List.replicate 16 0
  let confusion : Bytes := List.replicate (confusionBound (payloadRelay msg sessionId) - 1) 0
  have hmsg : msg.length = n + 16 := by simp [msg, payload]
  have hnoise (t : Ideal.Handshake) (p : Bytes) (r) (h : Crypto.transportWrite t p = some r) :
      r.2.length = p.length + 16 := by
    change (if p.length ≤ 65519 then some (t, p ++ List.replicate 16 0) else none) = some r at h
    split at h
    · cases h
      simp
    · cases h
  have hwritten (t : Ideal.Handshake) : Crypto.transportWrite t payload = some (t, msg) :=
    if_pos (by simpa [payload] using hn)
  have hpos : 0 < confusionBound (payloadRelay msg sessionId) := confusionBound_pos
  have hc : confusion.length = confusionBound (payloadRelay msg sessionId) - 1 :=
    List.length_replicate ..
  have hbound : confusion.length < confusionBound (payloadRelay msg conn.id) := by
    change confusion.length < confusionBound (payloadRelay msg sessionId)
    omega
  have hcarried : Carried conn payload
      (Codec.encode (padded (payloadRelay msg sessionId) confusion)) :=
    carried_sent rfl (hwritten ⟨true, ⟨[], ⟨.ed25519, []⟩⟩, none, 3⟩)
      (List.ne_nil_of_length_pos (by omega)) hbound
  have hle := h (fun b => Nat.le_of_eq (longIds_length b)) hnoise conn payload _ rfl
    (List.length_replicate ..) hcarried
  have hdata := length_payloadRelay hmsg sessionId
  have hlt' : readLimit < (Codec.encode (padded (payloadRelay msg sessionId) confusion)).length :=
    lt_length_padded rfl longIds_length (by omega) (by omega)
  omega

/-- A payload that the writer accepts passes every hop exactly when its `RelayMsg` is at most
3667 bytes long. -/
theorem fits_iff [Codec] {n : ℕ} (hn : n ≤ 65519) (sessionId : String) :
    Fits n sessionId ↔ relayMsgSize n sessionId ≤ 3667 := by
  refine ⟨relayMsgSize_le_of_fits hn, ?_⟩
  rintro hsize crypto hid hnoise conn payload b rfl rfl h
  obtain ⟨relay, htype, hdata, confusion, hc, rfl⟩ := h.data hnoise
  exact length_padded_le htype hid (hdata ▸ hsize) hc

theorem fits_thousand : Fits 1000 "session" :=
  (fits_iff (by decide) "session").mpr (by decide)

namespace Sample

def payload : Bytes := List.replicate 4096 0

def conn : CircuitConn := ⟨"session", ⟨⟨"entry"⟩, 0⟩, 0, some 0⟩

def transport : Ideal.Handshake := ⟨true, ⟨[], ⟨.ed25519, []⟩⟩, none, 3⟩

end Sample

/-- The sender accepts 4096 bytes, and the frame is too large without any padding. -/
theorem not_fits_4096 : ∃ b, Carried Sample.conn Sample.payload b ∧ readLimit < b.length := by
  have hpayload : Sample.payload.length = 4096 := List.length_replicate ..
  have hmsg : (Sample.payload ++ List.replicate 16 0).length = 4096 + 16 := by
    rw [List.length_append, hpayload, List.length_replicate]
  have hwritten : Crypto.transportWrite Sample.transport Sample.payload =
      some (Sample.transport, Sample.payload ++ List.replicate 16 0) :=
    if_pos (by rw [hpayload]; decide)
  generalize Sample.payload ++ List.replicate 16 0 = msg at hmsg hwritten
  have hdata : (payloadRelay msg "session").data.length = relayMsgSize 4096 "session" :=
    length_payloadRelay hmsg "session"
  have hsize : relayMsgSize 4096 "session" = 4126 := by decide
  have hle : 4096 ≤ (payloadRelay msg "session").data.length := by omega
  have hlen : (Codec.encode (padded (payloadRelay msg "session") [])).length = _ :=
    length_padded rfl []
  have hfield := le_size_field (k := 3) (by decide) hle
  have hbound : ([] : Bytes).length < confusionBound (payloadRelay msg Sample.conn.id) :=
    confusionBound_pos
  refine ⟨_, carried_sent rfl hwritten (List.ne_nil_of_length_pos (by omega)) hbound, ?_⟩
  change readLimit < (Codec.encode (padded (payloadRelay msg "session") [])).length
  rw [hlen, readLimit]
  omega

end WhiteNoise.Stream
