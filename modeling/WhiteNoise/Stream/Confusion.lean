import WhiteNoise.Network.Turns
import WhiteNoise.Stream.FrameSize

/-! # The padding over the hops

Every hop pads a frame anew, and the next node reads it with the padding of
that hop alone. The range of the length ends above a tenth of the data, so the
padding can be longer than that.
-/

namespace WhiteNoise.Confusion

open Wire Process WhiteNoise.Stream

section Generic

variable [Codec] [Crypto]

/-! ## Hops -/

/-- A run of `write_relay_arc` draws the padding, returns the key and writes the bytes. -/
def Writes (relay : Relay) (confusion : Bytes) (key : String) (b : Bytes) : Prop :=
  ∃ (node : Node) (rely : Shared → Shared → Prop) (s : Shared) (w : WrappedStream)
    (r : TurnRecord String),
    Turn node rely .free (writeRelayArc w relay) s r ∧
      ⟨.randomBelow (confusionBound relay), confusion⟩ ∈ r.asked ∧ r.answer = some key ∧
        .write w b ∈ r.outputs

/-- A run of `read_from_negotiated_arc` gets the bytes and returns the frame. -/
def Reads (b : Bytes) (relay : Relay) : Prop :=
  ∃ (node : Node) (rely : Shared → Shared → Prop) (s : Shared) (w : WrappedStream)
    (r : TurnRecord (Except ReadOneError Relay)),
    Turn node rely .free (readFromNegotiatedArc w) s r ∧
      (⟨.read w, .ok b⟩ : Sigma Act.Res) ∈ r.asked ∧ r.answer = some (.ok relay)

/-- The frame travels over one hop after the other: at each, a node writes it with a new padding and
another one reads what was written. The key is that of the last write. -/
inductive Hops : Relay → List Bytes → String → Relay → Prop
  | last {relay arrived : Relay} {confusion b : Bytes} {key : String}
      (hw : Writes relay confusion key b) (hr : Reads b arrived) :
      Hops relay [confusion] key arrived
  | hop {relay next arrived : Relay} {confusion b : Bytes} {key last : String}
      {confusions : List Bytes} (hw : Writes relay confusion key b) (hr : Reads b next)
      (h : Hops next confusions last arrived) : Hops relay (confusion :: confusions) last arrived

/-! ## What arrives -/

/-- `max_confusion_len` of the test -/
def maxConfusionLen (relay : Relay) : ℕ := relay.data.length * confusionMaxProportion / 100

/-- The frame arrives with its type and data, under the key of the last write and with the padding
of the last hop, which is within the bound. -/
structure Arrives (relay : Relay) (confusions : List Bytes) (key : String) (arrived : Relay) :
    Prop where
  type : arrived.type = relay.type
  data : arrived.data = relay.data
  id : arrived.id = key
  nonempty : arrived.id ≠ ""
  fresh : confusions.getLast? = some arrived.confusion
  bounded : arrived.confusion.length ≤ maxConfusionLen relay

/-- SHA-256 has 32 bytes, and only the text of no bytes is empty. -/
structure Digests : Prop where
  sha256 : ∀ b, (Crypto.sha256 b).length = 32
  bs58 : ∀ b, b ≠ [] → Crypto.bs58Encode b ≠ ""

variable {relay arrived : Relay} {confusion b : Bytes} {confusions : List Bytes} {key : String}

/-- What a run is answered can be answered. -/
theorem answers_of_asked {α : Type} {p : Async α} {node : Node} {rely : Shared → Shared → Prop}
    {s : Shared} {r : TurnRecord α} (h : Turn node rely .free p s r) :
    ∀ x ∈ r.asked, Answers x.1 x.2 := by
  induction p generalizing s r with
  | ret a =>
    obtain rfl : r = _ := h
    exact List.forall_mem_nil _
  | fail =>
    obtain rfl : r = _ := h
    exact List.forall_mem_nil _
  | atomic f k ih =>
    obtain ⟨s', c, -, -, hk⟩ := h
    exact ih s' hk
  | act a k ih =>
    obtain ⟨s', c, x, r', -, -, hx, hk, rfl⟩ := h
    intro y hy
    rcases List.mem_cons.mp hy with rfl | hy
    · exact ⟨c, s', x, hx, rfl⟩
    · exact ih x.answer hk y hy

/-- The length is drawn from the range. -/
theorem Writes.drawn (h : Writes relay confusion key b) :
    confusion.length < confusionBound relay := by
  obtain ⟨node, rely, s, w, r, hrun, hdrawn, -, -⟩ := h
  exact answers_randomBelow.mp (answers_of_asked hrun _ hdrawn)

/-- The bytes are those of the padded frame, under its identifier. -/
theorem Writes.encoded (h : Writes relay confusion key b) :
    key = (padded relay confusion).id ∧ b = Codec.encode (padded relay confusion) := by
  obtain ⟨node, rely, s, w, r, hrun, hdrawn, hkey, hwritten⟩ := h
  rw [← bind_pure (writeRelayArc w relay)] at hrun
  obtain ⟨s₁, s₂, drawn, r', -, -, hend, rfl⟩ := turn_writeRelayArc hrun
  obtain rfl : r' = _ := hend
  -- Two requests, of which only the first one draws.
  rcases List.mem_cons.mp hdrawn with hdrawn | hdrawn
  · cases hdrawn
    refine ⟨(Option.some.inj hkey).symm, ?_⟩
    cases List.mem_singleton.mp hwritten
    rfl
  · cases List.mem_singleton.mp hdrawn

/-- The frame is the one that the bytes decode to. -/
theorem Reads.decode (h : Reads b relay) : Codec.decode b = some relay := by
  obtain ⟨node, rely, s, w, r, hrun, hread, hframe⟩ := h
  obtain ⟨s', c, x, r', -, -, -, hrun, rfl⟩ := hrun
  cases hx : x.answer with
  | error e =>
    rw [hx] at hrun
    obtain rfl : r' = _ := hrun
    cases hframe
  | ok msg =>
    rw [hx] at hrun hread
    rcases Process.Semantics.Amid.unwrap hrun with ⟨frame, hdecode, hend⟩ | ⟨-, rfl⟩
    · obtain rfl : r' = _ := hend
      cases List.mem_singleton.mp hread
      cases hframe
      exact hdecode
    · cases hframe

/-- One hop: the frame that is read is the padded one, under the key of the write. -/
theorem Writes.read (hw : Writes relay confusion key b) (hr : Reads b arrived) :
    arrived = padded relay confusion ∧ key = arrived.id := by
  obtain ⟨rfl, rfl⟩ := hw.encoded
  have hdecode := hr.decode
  rw [Codec.decode_encode] at hdecode
  obtain rfl := Option.some.inj hdecode
  exact ⟨rfl, rfl⟩

/-! ## The last hop -/

/-- Whatever the number of hops, what arrives is a frame of the same type and data with the padding
of the last one, under its key. -/
theorem Hops.eq_padded (h : Hops relay confusions key arrived) :
    ∃ before confusion, confusions.getLast? = some confusion ∧ before.type = relay.type ∧
      before.data = relay.data ∧ arrived = padded before confusion ∧ key = arrived.id ∧
      confusion.length < confusionBound before := by
  induction h with
  | @last relay arrived confusion b key hw hr =>
    obtain ⟨rfl, hkey⟩ := hw.read hr
    exact ⟨relay, confusion, rfl, rfl, rfl, rfl, hkey, hw.drawn⟩
  | @hop relay next arrived confusion b key last confusions hw hr _ ih =>
    obtain ⟨rfl, -⟩ := hw.read hr
    obtain ⟨before, drawn, hlast, htype, hdata, hrest⟩ := ih
    refine ⟨before, drawn, ?_, htype, hdata, hrest⟩
    rw [List.getLast?_cons, hlast]
    rfl

/-- The padding that arrives is below the end of the range, whatever the hops before drew. -/
theorem Hops.length_lt (h : Hops relay confusions key arrived) :
    arrived.confusion.length < maxConfusionLen relay + confusionPadLen := by
  obtain ⟨before, confusion, -, -, hdata, rfl, -, hdrawn⟩ := h.eq_padded
  rw [confusionBound, hdata] at hdrawn
  exact hdrawn

omit [Codec] in
theorem Digests.fromBytesGetId_ne (hdigests : Digests) (b : Bytes) : fromBytesGetId b ≠ "" := by
  refine hdigests.bs58 _ fun hnil => ?_
  have hlength := hdigests.sha256 b
  rw [hnil] at hlength
  cases hlength

omit [Codec] [Crypto] in
theorem Arrives.last_le (h : Arrives relay confusions key arrived)
    (hlast : confusions.getLast? = some confusion) : confusion.length ≤ maxConfusionLen relay := by
  have hfresh := h.fresh
  rw [hlast] at hfresh
  obtain rfl := Option.some.inj hfresh
  exact h.bounded

/-- Type, data, identifier and freshness hold of every run. The bound on the padding holds of those
whose last hop draws within it. -/
theorem confusion_over_hops (hdigests : Digests) (h : Hops relay confusions key arrived) :
    Arrives relay confusions key arrived ↔
      ∀ confusion, confusions.getLast? = some confusion →
        confusion.length ≤ maxConfusionLen relay := by
  constructor
  · intro harrives confusion hlast
    exact harrives.last_le hlast
  · intro hbound
    obtain ⟨before, confusion, hlast, htype, hdata, rfl, rfl, -⟩ := h.eq_padded
    exact ⟨htype, hdata, rfl, hdigests.fromBytesGetId_ne _, hlast, hbound confusion hlast⟩

/-! ## Every draw has its run -/

theorem exists_writes (node : Node) (hdrawn : confusion.length < confusionBound relay) :
    Writes relay confusion (padded relay confusion).id (Codec.encode (padded relay confusion)) := by
  let w : WrappedStream := ⟨⟨""⟩, 0⟩
  let frame := Codec.encode (padded relay confusion)
  let key := (padded relay confusion).id
  have hend : Turn node (fun _ _ => True) .free (.ret key) {} ⟨some key, {}, [], [], []⟩ := rfl
  have hwrite : Turn node (fun _ _ => True) .free (.act (.write w frame) fun _ => .ret key) {} _ :=
    ⟨{}, .go, ⟨(), {}, [.write w frame], []⟩, _, trivial, trivial, rfl, hend, rfl⟩
  have hrun : Turn node (fun _ _ => True) .free (writeRelayArc w relay) {} _ :=
    ⟨{}, .bytes confusion, ⟨confusion, {}, [], []⟩, _, trivial, trivial, if_pos hdrawn, hwrite, rfl⟩
  exact ⟨node, _, {}, w, _, hrun, List.mem_cons_self, rfl, List.mem_singleton_self _⟩

theorem exists_reads (node : Node) (hdecode : Codec.decode b = some relay) : Reads b relay := by
  let w : WrappedStream := ⟨⟨""⟩, 0⟩
  let frame : Except ReadOneError Relay := .ok relay
  let s : Shared := { inbox := fun _ => [.ok b] }
  let s' : Shared := { s with inbox := Function.update s.inbox w.streamId [] }
  have hend : Turn node (fun _ _ => True) .free (Prog.unwrap (Codec.decode b) >>= fun relay =>
      .ret (.ok relay)) s' ⟨some frame, s', [], [], []⟩ := by
    rw [hdecode]
    rfl
  have hrun : Turn node (fun _ _ => True) .free (readFromNegotiatedArc w) s _ :=
    ⟨s, .go, ⟨.ok b, s', [], []⟩, _, trivial, trivial, rfl, hend, rfl⟩
  exact ⟨node, _, s, w, _, hrun, List.mem_singleton_self _, rfl⟩

/-- Whatever the hops draw from their ranges, there is a run in which they draw it. -/
theorem exists_hops (node : Node) (hne : confusions ≠ [])
    (hdrawn : ∀ confusion ∈ confusions, confusion.length < confusionBound relay) :
    ∃ key arrived, Hops relay confusions key arrived := by
  induction confusions generalizing relay with
  | nil => exact absurd rfl hne
  | cons confusion confusions ih =>
    have hwrites := exists_writes node (hdrawn confusion List.mem_cons_self)
    have hreads := exists_reads node (Codec.decode_encode (padded relay confusion))
    rcases eq_or_ne confusions [] with rfl | hne
    · exact ⟨_, _, .last hwrites hreads⟩
    · have hdrawn' : ∀ c ∈ confusions, c.length < confusionBound (padded relay confusion) :=
        fun c hc => hdrawn c (List.mem_cons_of_mem _ hc)
      obtain ⟨key, arrived, h⟩ := ih hne hdrawn'
      exact ⟨key, arrived, .hop hwrites hreads h⟩

/-- No message and no number of hops is safe from a draw above the bound. -/
theorem exists_not_arrives (node : Node) (relay : Relay) (n : ℕ) :
    ∃ confusions key arrived, confusions.length = n + 1 ∧ Hops relay confusions key arrived ∧
      ¬ Arrives relay confusions key arrived := by
  let confusion : Bytes := List.replicate (maxConfusionLen relay + 1) 0
  let confusions := List.replicate (n + 1) confusion
  have hlength : confusion.length = maxConfusionLen relay + 1 := List.length_replicate ..
  have hlast : confusions.getLast? = some confusion := by
    simp [confusions, List.getLast?_replicate]
  have hdrawn : ∀ c ∈ confusions, c.length < confusionBound relay := by
    intro c hc
    obtain rfl := List.eq_of_mem_replicate hc
    rw [hlength]
    exact Nat.add_lt_add_left (by decide : 1 < confusionPadLen) _
  obtain ⟨key, arrived, h⟩ := exists_hops node (List.cons_ne_nil _ _) hdrawn
  refine ⟨confusions, key, arrived, List.length_replicate .., h, fun harrives => ?_⟩
  have hle := harrives.last_le hlast
  omega

end Generic

/-! ## The message of the test -/

/-- SHA-256 in base 58 is such a digest. -/
theorem digests_ideal : Digests where
  sha256 := Sha256.length_digest
  bs58 _ hne hempty := hne (Base58.encode_injective hempty)

namespace Sample

/-- The message of the test: 1024 bytes of data and 5 bytes of an earlier padding -/
def relay : Relay where
  id := ""
  type := Relaytype.data.toI32
  data := List.replicate 1024 0
  confusion := List.replicate 5 0

def node : Node := ⟨(⟨.ed25519, List.replicate 32 7⟩ : Ideal.Keypair), none, none⟩

theorem maxConfusionLen_relay : maxConfusionLen relay = 102 := by
  rw [maxConfusionLen, relay, List.length_replicate]
  rfl

theorem confusionBound_relay : confusionBound relay = 112 := by
  rw [confusionBound, relay, List.length_replicate]
  rfl

/-- Paddings of fewer than 112 bytes are drawn in some run. -/
theorem exists_hops_relay {confusions : List Bytes} (hne : confusions ≠ [])
    (hlt : ∀ confusion ∈ confusions, confusion.length < 112) :
    ∃ key arrived, Hops relay confusions key arrived := by
  rw [← confusionBound_relay] at hlt
  exact exists_hops node hne hlt

/-- A long padding and a short one -/
def confusions : List Bytes := [List.replicate 111 7, List.replicate 102 1]

end Sample

/-- Two hops, of which only the first one draws more than a tenth. -/
theorem confusion_over_two_hops : ∃ key arrived,
    Hops Sample.relay Sample.confusions key arrived ∧
      Arrives Sample.relay Sample.confusions key arrived := by
  have hlt : ∀ confusion ∈ Sample.confusions, confusion.length < 112 := by
    simp [Sample.confusions]
  obtain ⟨key, arrived, h⟩ := Sample.exists_hops_relay (List.cons_ne_nil _ _) hlt
  refine ⟨key, arrived, h, (confusion_over_hops digests_ideal h).mpr fun confusion hlast => ?_⟩
  obtain rfl : List.replicate 102 1 = confusion := Option.some.inj hlast
  rw [List.length_replicate, Sample.maxConfusionLen_relay]

/-- The range of the only hop goes up to 111 bytes, the test asserts at most 102. -/
theorem not_confusion_over_one_hop : ∃ key arrived,
    Hops Sample.relay [List.replicate 111 7] key arrived ∧
      ¬ Arrives Sample.relay [List.replicate 111 7] key arrived := by
  have hlt : ∀ confusion ∈ [List.replicate 111 (7 : UInt8)], confusion.length < 112 := by simp
  obtain ⟨key, arrived, h⟩ := Sample.exists_hops_relay (List.cons_ne_nil _ _) hlt
  refine ⟨key, arrived, h, fun harrives => ?_⟩
  have hle : (List.replicate 111 (7 : UInt8)).length ≤ maxConfusionLen Sample.relay :=
    harrives.last_le rfl
  rw [List.length_replicate, Sample.maxConfusionLen_relay] at hle
  exact absurd hle (by decide)

end WhiteNoise.Confusion
