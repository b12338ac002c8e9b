import WhiteNoise.Network.Connection
import WhiteNoise.Network.Ideal
import WhiteNoise.Survival.Operations

/-! # What the relay plane survives

A handler unwraps what it decodes from a frame and what it finds in the maps,
and the handshake and the reader of a circuit unwrap what Noise makes of the
data. Each of these unwraps is reached with a value if the frame is sound and
the entry is there; no other one can fail.
-/

namespace WhiteNoise.RelayPlane

open Wire Process

section Generic

variable [Codec] [Crypto]

/-! ## What has to be sound -/

/-- The frame decodes, and what it carries decodes where the handler unwraps it or stops. A probe
comes to a handler that is in a session. -/
def Sound (sessionId : Option String) (msg : Bytes) : Prop :=
  ∃ relay : Relay, Codec.decode msg = some relay ∧
    (relay.type = Relaytype.probe.toI32 →
      sessionId.isSome ∧ (Codec.decode relay.data : Option ProbeSignal).isSome) ∧
    (relay.type = Relaytype.setSessionId.toI32 →
      (Codec.decode relay.data : Option SetSessionIdMsg).isSome) ∧
    (relay.type = Relaytype.disconnect.toI32 →
      (Codec.decode relay.data : Option Disconnect).isSome)

/-- Noise reads the message, and the payload of a remote it knows decodes. -/
def Legible (noise : Crypto.Handshake) (data : Bytes) : Prop :=
  ∃ noise' payload, handleReadShake data noise = some (noise', payload) ∧
    ∀ pubkey, Crypto.getRemoteStatic noise' = some pubkey →
      (handleRemoteHandshakePayload payload pubkey).isSome

/-- What is taken from a stream or a channel is sound, and what is looked up is there. -/
structure Sane {α : Type} (s : Shared) (p : Async α) : Prop where
  frame : ∀ w sid (k : Option Task → Async α), p = relayEventHandler w sid >>= k →
    ∀ msg q, s.inbox w.streamId = .ok msg :: q → Sound sid msg
  probe : ∀ sid (k : Probe → Async α),
    p = Async.getProbe sid >>= (fun o => Prog.unwrap o >>= k) → (s.probeMap sid).isSome
  circuit : ∀ sid (k : CircuitConn → Async α),
    p = Async.getCircuit sid >>= (fun o => Prog.unwrap o >>= k) → (s.circuitMap sid).isSome
  session : ∀ sid w (k : Shared → Async α), p = .atomic (Shared.joinSession sid w) k →
    (s.sessionMap sid).isSome
  shake : ∀ conn noise (k : Crypto.Handshake × Bytes → Async α), p = readShake conn noise >>= k →
    ∀ data q, s.channels conn.inChannel = data :: q → Legible noise data
  payload : ∀ conn buf (k : Bytes → Async α), p = CircuitConn.read conn buf >>= k →
    conn.transportState.isSome →
      ∀ data q, s.channels conn.inChannel = data :: q → (payloadOf data).isSome
  message : ∀ ref payload buf (k : Bytes → Async α), p = readTransport ref payload buf >>= k →
    ∃ t text, (s.transports ref).bind (Crypto.transportRead · payload buf.length) =
      some (t, text) ∧ (realMessage (text ++ buf.drop text.length)).isSome

theorem Sane.of_bind {α β : Type} {s : Shared} {p : Async α} {g : α → Async β}
    (h : Sane s (p >>= g)) : Sane s p where
  frame w sid k hp := h.frame w sid (fun a => k a >>= g) (by rw [hp, bind_assoc])
  probe sid k hp := h.probe sid (fun a => k a >>= g) (by simp only [hp, bind_assoc])
  circuit sid k hp := h.circuit sid (fun a => k a >>= g) (by simp only [hp, bind_assoc])
  session sid w k hp := h.session sid w (fun a => k a >>= g) (by rw [hp, Prog.atomic_bind])
  shake conn noise k hp := h.shake conn noise (fun a => k a >>= g) (by rw [hp, bind_assoc])
  payload conn buf k hp := h.payload conn buf (fun a => k a >>= g) (by rw [hp, bind_assoc])
  message ref payload buf k hp :=
    h.message ref payload buf (fun a => k a >>= g) (by rw [hp, bind_assoc])

/-- The operation is sane, whatever the choice. -/
def sane : Proviso Shared Choice Act.Res := ⟨fun _ => True, fun s _ p => Sane s p, Sane.of_bind⟩

theorem asks (a : Act) (_ : a.Served) : sane.Asks a := trivial

/-! ## Programs of the relay plane -/

variable {node : Node} {α : Type} {Q : α → Prop} {w : WrappedStream} {sid : String}
  {current : Option String} {relay : Relay}

/-- The program survives sane operations. -/
abbrev Survives (node : Node) (Q : α → Prop) (p : Async α) : Prop :=
  (nodeSemantics node).Survives sane Q p

theorem survives_getProbe {g : Probe → Async α} (h : ∀ probe, Survives node Q (g probe)) :
    Survives node Q (Async.getProbe sid >>= fun o => Prog.unwrap o >>= g) := by
  intro s c hs
  obtain ⟨probe, hp⟩ := Option.isSome_iff_exists.mp (hs.probe sid g rfl)
  dsimp only
  rw [hp]
  exact h probe

theorem survives_getCircuit {g : CircuitConn → Async α} (h : ∀ conn, Survives node Q (g conn)) :
    Survives node Q (Async.getCircuit sid >>= fun o => Prog.unwrap o >>= g) := by
  intro s c hs
  obtain ⟨conn, hconn⟩ := Option.isSome_iff_exists.mp (hs.circuit sid g rfl)
  dsimp only
  rw [hconn]
  exact h conn

theorem survives_handleRelayProbe
    (h : (Codec.decode relay.data : Option ProbeSignal).isSome) :
    Survives node (fun _ => True) (handleRelayProbe sid w relay) := by
  obtain ⟨probe, hprobe⟩ := Option.isSome_iff_exists.mp h
  simp only [handleRelayProbe, hprobe, Prog.unwrap_some, Prog.ret_bind]
  apply Semantics.Survives.read.seq
  intro session _
  cases session with
  | none => trivial
  | some session =>
    dsimp only
    split
    · apply Semantics.Survives.read.seq
      intro found _
      split
      · apply survives_getProbe
        intro existProbe
        split
        · exact survives_sendRelayTwoway asks
        · exact survives_close asks
      · exact Semantics.Survives.write
    · split
      · next hready => exact survives_forwardRelay asks hready
      · trivial

theorem survives_handleSuccess : Survives node (fun _ => True) (handleSuccess w relay) := by
  unfold handleSuccess
  cases (Codec.decode relay.data : Option CircuitSuccess) with
  | none => trivial
  | some relaySuccess =>
    apply Semantics.Survives.read.seq
    intro session _
    cases session with
    | none => trivial
    | some session =>
      dsimp only
      split
      · exact survives_getCircuit fun conn => Semantics.Survives.call trivial
      · split
        · exact survives_getCircuit fun conn => Semantics.Survives.call trivial
        · split
          · next hready => exact survives_forwardRelay asks hready
          · trivial

theorem survives_handleRelayMsg : Survives node (fun _ => True) (handleRelayMsg w relay) := by
  unfold handleRelayMsg
  cases (Codec.decode relay.data : Option RelayMsg) with
  | none => trivial
  | some relayMsg =>
    apply Semantics.Survives.read.seq
    intro session _
    cases session with
    | none => trivial
    | some session =>
      dsimp only
      split
      · exact Semantics.Survives.write
      · split
        · next hready => exact survives_forwardRelay asks hready
        · trivial

theorem survives_handleSetSession {msg : SetSessionIdMsg} {id : String} :
    Survives node (fun _ => True) (handleSetSession msg w id) := by
  unfold handleSetSession
  apply Semantics.Survives.read.seq
  intro session _
  cases session with
  | none => exact Semantics.Survives.write.seq fun _ _ => Semantics.Survives.call trivial
  | some session =>
    dsimp only
    split
    · split
      · next hready =>
        obtain ⟨later, hl⟩ := Option.isSome_iff_exists.mp (Bool.and_eq_true_iff.mp hready).2
        rw [hl, Prog.unwrap_some]
        apply Semantics.Survives.write.seq
        intro _ _
        apply ((survives_writeRelayArc asks).seq fun _ _ => trivial : Survives node (fun _ => True)
          (writeDisconnectArc later msg.sessionId)).seq
        intro _ _
        apply (Semantics.Survives.call trivial).seq
        intro _ _
        exact Semantics.Survives.call trivial
      · exact survives_close asks
    · intro s c hs
      simp only [Prog.bind_eq, Prog.ret_bind]
      rw [if_pos (hs.session _ _ _ rfl)]
      exact Semantics.Survives.call trivial

/-! ## A frame -/

theorem survives_relayEvent {msg : Bytes} (hmsg : Codec.decode msg = some relay)
    (h : Sound current msg) : Survives node (fun _ => True) (relayEvent w current relay) := by
  obtain ⟨relay', hrelay, hprobe, hset, -⟩ := h
  obtain rfl : relay = relay' := Option.some.inj (hmsg.symm.trans hrelay)
  unfold relayEvent
  apply Semantics.Survives.ite
  · exact fun _ => trivial
  intro _
  apply Semantics.Survives.ite
  · exact fun _ => trivial
  intro _
  apply Semantics.Survives.ite
  · intro ht
    obtain ⟨hsome, hdec⟩ := hprobe ht
    obtain ⟨sid, rfl⟩ := Option.isSome_iff_exists.mp hsome
    exact (survives_handleRelayProbe hdec).seq fun _ _ => trivial
  intro _
  apply Semantics.Survives.ite
  · intro _
    cases (Codec.decode relay.data : Option Disconnect) with
    | none => trivial
    | some disconnect => exact (survives_close asks).seq fun _ _ => trivial
  intro _
  apply Semantics.Survives.ite
  · intro ht
    obtain ⟨msg, hdec⟩ := Option.isSome_iff_exists.mp (hset ht)
    rw [hdec, Prog.unwrap_some, Prog.ret_bind]
    dsimp only
    split
    · apply Semantics.Survives.write.seq
      intro _ _
      exact survives_handleSetSession.seq fun _ _ => trivial
    · exact survives_handleSetSession.seq fun _ _ => trivial
  intro _
  apply Semantics.Survives.ite
  · exact fun _ => survives_handleSuccess.seq fun _ _ => trivial
  intro _
  apply Semantics.Survives.ite
  · exact fun _ => survives_handleRelayMsg.seq fun _ _ => trivial
  · exact fun _ => trivial

theorem survives_relayStreamError :
    Survives node (fun _ => True) (relayStreamError w current) := by
  unfold relayStreamError
  cases current with
  | none => trivial
  | some sid =>
    apply Semantics.Survives.read.seq
    intro session _
    apply Semantics.Survives.ite
    · exact fun _ => survives_close asks
    · exact fun _ => trivial

/-- What a task of the relay plane ends with: it goes on as a handler, or not at all. -/
def Resumes (o : Option Task) : Prop :=
  ∀ t, o = some t → ∃ w current, t = .relayEventHandler w current

theorem survives_relayEventHandler :
    Survives node Resumes (relayEventHandler w current) := by
  have hframe {s : Shared} {c : Choice} (hs : sane.Holds s c (relayEventHandler w current)) :=
    hs.frame w current .ret (Prog.bind_ret _).symm
  rw [relayEventHandler_eq] at hframe ⊢
  refine ⟨trivial, fun s c x hs hx => ?_⟩
  obtain ⟨res, q, hq, rfl⟩ := Shared.dequeue_eq_some hx
  dsimp only
  cases res with
  | error e => exact survives_relayStreamError.seq fun _ _ t ht => nomatch ht
  | ok msg =>
    have hsound := hframe hs msg q hq
    obtain ⟨relay, hrelay, -⟩ := id hsound
    dsimp only
    rw [hrelay, Prog.unwrap_some, Prog.ret_bind]
    apply (survives_relayEvent hrelay hsound).seq
    intro next _
    cases next with
    | none => exact fun t ht => nomatch ht
    | some current => exact fun t ht => ⟨w, current, (Option.some.inj ht).symm⟩

/-! ## The handshake -/

/-- What the code relies on of Noise, with the keys of the node. `At b n noise` is the state of the
initiator (`b`) or of the responder after `n` messages. The initiator learns the static key of the
remote with the second message, the responder with the third one. -/
structure Patterned (node : Node) (At : Bool → ℕ → Crypto.Handshake → Prop) : Prop where
  authentic : ∀ seed, ∃ keys sig, Crypto.intoAuthentic seed node.keypair = some keys ∧
    Crypto.identitySig keys = some sig
  initiator : ∀ keys, ∃ noise, Crypto.buildInitiator keys = some noise ∧ At true 0 noise
  responder : ∀ keys, ∃ noise, Crypto.buildResponder keys = some noise ∧ At false 0 noise
  first : ∀ rand noise, At true 0 noise → ∃ noise' buf,
    Crypto.writeMessage rand noise [] = some (noise', buf) ∧ buf ≠ [] ∧ At true 1 noise'
  write : ∀ rand noise b n seed keys payload, (b, n) = (false, 1) ∨ (b, n) = (true, 2) →
    At b n noise → Crypto.intoAuthentic seed node.keypair = some keys →
    generateHandshakePayload keys = some payload → ∃ noise' buf,
      Crypto.writeMessage rand noise payload = some (noise', buf) ∧ buf ≠ [] ∧ At b (n + 1) noise'
  read : ∀ noise b n msg noise' payload, At b n noise →
    Crypto.readMessage noise msg = some (noise', payload) → At b (n + 1) noise'
  static : ∀ noise b n, (b, n) = (true, 2) ∨ (b, n) = (false, 3) → At b n noise →
    (Crypto.getRemoteStatic noise).isSome
  transport : ∀ noise b, At b 3 noise → (Crypto.intoTransportMode noise).isSome

variable {At : Bool → ℕ → Crypto.Handshake → Prop} {conn : CircuitConn}
  {noise : Crypto.Handshake}

omit [Codec] in
theorem handleReadShake_eq_some {data : Bytes} {noise' : Crypto.Handshake} {payload : Bytes}
    (h : handleReadShake data noise = some (noise', payload)) :
    ∃ msg, Crypto.readMessage noise msg = some (noise', payload) := by
  simp only [handleReadShake, Option.bind_eq_bind, Option.bind_eq_some_iff] at h
  obtain ⟨hi, -, lo, -, h⟩ := h
  split at h
  · exact ⟨_, h⟩
  · cases h

/-- A message with bytes is written. -/
theorem survives_writePayloadArc {buf : Bytes} (h : buf ≠ []) :
    Survives node (fun _ => True) (writeHandshakePayloadArc w buf buf.length sid) := by
  have hlen : ¬(buf.length ≠ buf.length ∨ buf.length = 0) := by simp [h]
  rw [writeHandshakePayloadArc, writePayloadArc, if_neg hlen]
  exact (survives_writeRelayArc asks).seq fun _ _ => trivial

theorem survives_writeShake {b : Bool} {n : ℕ} {payload : Bytes}
    (h : ∀ rand, ∃ noise' buf, Crypto.writeMessage rand noise payload = some (noise', buf) ∧
      buf ≠ [] ∧ At b (n + 1) noise') :
    Survives node (At b (n + 1)) (writeShake conn sid noise payload) := by
  apply (Semantics.Survives.call trivial).seq
  intro rand _
  obtain ⟨noise', buf, hwrite, hbuf, hat⟩ := h rand
  rw [hwrite, Prog.unwrap_some, Prog.ret_bind]
  exact (survives_writePayloadArc hbuf).seq fun _ _ => hat

theorem survives_readShake (hp : Patterned node At) {b : Bool} {n : ℕ} (h : At b n noise) :
    Survives node (fun r => At b (n + 1) r.1 ∧ ∀ pubkey, Crypto.getRemoteStatic r.1 = some pubkey →
      (handleRemoteHandshakePayload r.2 pubkey).isSome) (readShake conn noise) := by
  refine ⟨trivial, fun s c x hs hx => ?_⟩
  obtain ⟨data, q, hq, rfl⟩ := Shared.dequeue_eq_some hx
  obtain ⟨noise', payload, hread, hlegible⟩ :=
    hs.shake conn noise .ret (Prog.bind_ret _).symm data q hq
  obtain ⟨msg, hmsg⟩ := handleReadShake_eq_some hread
  dsimp only
  simp only [Prog.bind_eq, Prog.ret_bind, hread, Prog.unwrap_some]
  exact ⟨hp.read noise b n msg noise' payload h hmsg, hlegible⟩

theorem survives_establish (hp : Patterned node At) {b : Bool} (h : At b 3 noise) :
    Survives node (fun _ => True) (establish conn sid noise) := by
  obtain ⟨transport, ht⟩ := Option.isSome_iff_exists.mp (hp.transport noise b h)
  rw [establish, ht, Prog.unwrap_some, Prog.ret_bind]
  apply Semantics.Survives.update.seq
  intro _ _
  exact Semantics.Survives.write

theorem survives_processHandshake (hp : Patterned node At) {initiate : Bool} :
    Survives node (fun _ => True) (processHandshake node conn initiate sid) := by
  apply (Semantics.Survives.call trivial).seq
  intro seed _
  obtain ⟨keys, sig, hkeys, hsig⟩ := hp.authentic seed
  obtain ⟨own, hown⟩ : ∃ own, generateHandshakePayload keys = some own := by
    simp [generateHandshakePayload, hsig]
  rw [hkeys, Prog.unwrap_some, Prog.ret_bind]
  cases initiate with
  | true =>
    obtain ⟨noise, hnoise, hat⟩ := hp.initiator keys
    rw [if_pos rfl, hnoise, Prog.unwrap_some, Prog.ret_bind]
    apply (survives_writeShake fun rand => hp.first rand noise hat).seq
    intro noise hat
    apply (survives_readShake hp hat).seq
    rintro ⟨noise, payload⟩ ⟨hat, hlegible⟩
    obtain ⟨pubkey, hpub⟩ := Option.isSome_iff_exists.mp (hp.static noise true 2 (Or.inl rfl) hat)
    obtain ⟨verified, hver⟩ := Option.isSome_iff_exists.mp (hlegible pubkey hpub)
    dsimp only
    rw [hpub, Prog.unwrap_some, Prog.ret_bind, hver, Prog.unwrap_some, Prog.ret_bind, hown,
      Prog.unwrap_some, Prog.ret_bind]
    apply (survives_writeShake fun rand =>
      hp.write rand noise true 2 seed keys own (Or.inr rfl) hat hkeys hown).seq
    intro noise hat
    exact survives_establish hp hat
  | false =>
    obtain ⟨noise, hnoise, hat⟩ := hp.responder keys
    rw [if_neg Bool.false_ne_true, hsig, Option.map_some, Prog.unwrap_some, Prog.ret_bind, hnoise,
      Prog.unwrap_some, Prog.ret_bind]
    apply (survives_readShake hp hat).seq
    rintro ⟨noise₁, payload⟩ ⟨hat₁, -⟩
    dsimp only
    rw [hown, Prog.unwrap_some, Prog.ret_bind]
    apply (survives_writeShake fun rand =>
      hp.write rand noise₁ false 1 seed keys own (Or.inl rfl) hat₁ hkeys hown).seq
    intro noise hat
    apply (survives_readShake hp hat).seq
    rintro ⟨noise, payload⟩ ⟨hat, hlegible⟩
    obtain ⟨pubkey, hpub⟩ := Option.isSome_iff_exists.mp (hp.static noise false 3 (Or.inr rfl) hat)
    obtain ⟨verified, hver⟩ := Option.isSome_iff_exists.mp (hlegible pubkey hpub)
    dsimp only
    rw [hpub, Prog.unwrap_some, Prog.ret_bind, hver, Prog.unwrap_some, Prog.ret_bind]
    exact survives_establish hp hat

/-! ## The reader of a circuit -/

theorem survives_readTransport {ref : ℕ} {payload buf : Bytes} :
    Survives node (fun buf => (realMessage buf).isSome) (readTransport ref payload buf) := by
  intro s c hs
  obtain ⟨t, text, hread, hreal⟩ := hs.message ref payload buf .ret (Prog.bind_ret _).symm
  simp only [Prog.bind_eq, Prog.ret_bind, hread, Prog.unwrap_some]
  exact hreal

theorem survives_read {buf : Bytes} :
    Survives node (fun _ => True) (CircuitConn.read conn buf) := by
  cases href : conn.transportState with
  | none =>
    rw [CircuitConn.read, href]
    trivial
  | some ref =>
    have hpayload {s : Shared} {c : Choice} (hs : sane.Holds s c (CircuitConn.read conn buf)) :=
      hs.payload conn buf .ret (Prog.bind_ret _).symm (by rw [href]; rfl)
    simp only [CircuitConn.read, href, Prog.call_bind] at hpayload ⊢
    refine ⟨trivial, fun s c x hs hx => ?_⟩
    obtain ⟨data, q, hq, rfl⟩ := Shared.dequeue_eq_some hx
    obtain ⟨payload, hdata⟩ := Option.isSome_iff_exists.mp (hpayload hs data q hq)
    dsimp only
    rw [hdata, Prog.unwrap_some, Prog.ret_bind]
    apply survives_readTransport.seq
    intro buf hreal
    exact (Semantics.Survives.unwrap hreal).mono fun _ _ => trivial

/-! ## The relay plane in a pool -/

/-- The tasks of the relay plane: the handlers, the handshakes, and a reader of a circuit. -/
inductive Plane (node : Node) : Thread → Prop
  | handler (w : WrappedStream) (current : Option String) :
    Plane node (Task.body node (.relayEventHandler w current))
  | handshake (conn : CircuitConn) (initiate : Bool) (sid : String) :
    Plane node (Task.body node (.processHandshake conn initiate sid))
  | reader (conn : CircuitConn) (buf : Bytes) :
    Plane node (CircuitConn.read conn buf >>= fun _ => .ret none)

theorem Plane.survives (hp : Patterned node At) {t : Thread} (ht : Plane node t) :
    Survives node Resumes t := by
  cases ht with
  | handler w current => exact survives_relayEventHandler
  | handshake conn initiate sid =>
    exact (survives_processHandshake hp).seq fun _ _ t ht => nomatch ht
  | reader conn buf => exact survives_read.seq fun _ _ t ht => nomatch ht

/-- The frame is of a type that carries something, and that does not decode. -/
def Garbled (relay : Relay) : Prop :=
  (relay.type = Relaytype.probe.toI32 ∧ (Codec.decode relay.data : Option ProbeSignal) = none) ∨
  (relay.type = Relaytype.disconnect.toI32 ∧
    (Codec.decode relay.data : Option Disconnect) = none) ∨
  (relay.type = Relaytype.setSessionId.toI32 ∧
    (Codec.decode relay.data : Option SetSessionIdMsg) = none) ∨
  (relay.type = Relaytype.success.toI32 ∧
    (Codec.decode relay.data : Option CircuitSuccess) = none) ∨
  (relay.type = Relaytype.data.toI32 ∧ (Codec.decode relay.data : Option RelayMsg) = none)

/-- A garbled frame that is sound is taken from the stream, and nothing else happens. -/
def Ignores (node : Node) (i : ℕ) (p : NodePool) : Prop :=
  ∀ w current msg q relay c,
    p.threads[i]? = some (Task.body node (.relayEventHandler w current)) →
    p.state.inbox w.streamId = .ok msg :: q → Sound current msg →
    Codec.decode msg = some relay → Garbled relay →
    nodeStep node p (.thread i c) =
      some (⟨{ p.state with inbox := Function.update p.state.inbox w.streamId q },
        p.threads.set i (.ret (some (.relayEventHandler w current)))⟩, [])

theorem relayEvent_garbled {msg : Bytes} (hmsg : Codec.decode msg = some relay)
    (hsound : Sound current msg) (h : Garbled relay) :
    relayEvent w current relay = .ret (some current) := by
  obtain ⟨relay', hrelay, hprobe, hset, hdisc⟩ := hsound
  obtain rfl : relay = relay' := Option.some.inj (hmsg.symm.trans hrelay)
  rcases h with ⟨ht, h⟩ | ⟨ht, h⟩ | ⟨ht, h⟩ | ⟨ht, h⟩ | ⟨ht, h⟩
  · have hsome := (hprobe ht).2
    rw [h] at hsome
    cases hsome
  · have hsome := hdisc ht
    rw [h] at hsome
    cases hsome
  · have hsome := hset ht
    rw [h] at hsome
    cases hsome
  · rw [relayEvent_success ht, handleSuccess, h]
    rfl
  · rw [relayEvent_data ht, handleRelayMsg, h]
    rfl

theorem ignores (node : Node) (i : ℕ) (p : NodePool) : Ignores node i p := by
  intro w current msg q relay c ht hq hsound hmsg hgarbled
  have hbody : Task.body node (.relayEventHandler w current) = relayEventHandler w current := rfl
  rw [hbody, relayEventHandler_eq] at ht
  simp only [nodeStep, Semantics.step, ht, Semantics.advance, nodeSemantics, Shared.reply,
    Shared.dequeue, hq, hmsg, Prog.unwrap_some, Prog.ret_bind,
    relayEvent_garbled hmsg hsound hgarbled, List.map_nil, List.append_nil]
  rfl

end Generic

namespace Sample

def node : Node := ⟨(⟨.ed25519, List.replicate 32 7⟩ : Ideal.Keypair), none, none⟩

def stream : WrappedStream := ⟨⟨"remote"⟩, 0⟩

/-- A node with one relay stream, whose handler has no session yet. -/
def fresh : NodePool where
  state := {}
  threads := [Task.body node (.relayEventHandler stream none)]

/-- The remote writes the bytes as one frame, and the handler takes it. -/
def frame (msg : Bytes) : List Event := [.frame 0 (.ok msg), .thread 0 .go]

/-- A success frame whose payload breaks off. -/
def garbled : Bytes := Codec.encode (newRelay .success [10])

end Sample

/-- The handshake of the ideal Noise is as the code relies on it. -/
theorem patterned_ideal (node : Node) : Patterned node fun b n (noise : Ideal.Handshake) =>
    noise.initiator = b ∧ noise.turn = n ∧
      ((b, n) = (true, 2) ∨ (b, n) = (false, 3) → noise.remoteStatic.isSome) where
  authentic seed := ⟨_, _, rfl, rfl⟩
  initiator keys := ⟨_, rfl, rfl, rfl, by simp⟩
  responder keys := ⟨_, rfl, rfl, rfl, by simp⟩
  first := by
    rintro rand ⟨b, keys, static, n⟩ ⟨rfl, rfl, -⟩
    exact ⟨_, _, rfl, by simp, rfl, rfl, by simp⟩
  write := by
    rintro rand ⟨b, keys, static, n⟩ b n seed keys' payload hbn ⟨rfl, rfl, -⟩ - -
    have hwrites : Ideal.Handshake.writes ⟨b, keys, static, n⟩ := by
      rcases hbn with hbn | hbn <;> cases hbn <;> simp [Ideal.Handshake.writes]
    refine ⟨_, _, if_pos hwrites, ?_, rfl, rfl, ?_⟩
    · rcases hbn with hbn | hbn <;> cases hbn <;> exact List.cons_ne_nil _ _
    · rcases hbn with hbn | hbn <;> cases hbn <;> simp
  read := by
    rintro ⟨b, keys, static, n⟩ b n msg noise' payload ⟨rfl, rfl, -⟩ h
    change Ideal.Handshake.read _ msg = _ at h
    unfold Ideal.Handshake.read at h
    split at h
    · split at h
      · cases h
      · split at h
        · next h0 =>
          cases h
          exact ⟨rfl, congrArg (· + 1) h0.symm, by simp [show n = 0 from h0]⟩
        · split at h
          · cases h
            exact ⟨rfl, rfl, fun _ => rfl⟩
          · cases h
    · cases h
  static := by
    rintro noise b n hbn ⟨-, -, h⟩
    exact h hbn
  transport := by
    rintro noise b ⟨-, h, -⟩
    change (if noise.turn = 3 then some noise else none).isSome
    rw [if_pos h]
    rfl

/-- The handler without a session is sane if the next frame is sound. -/
theorem sane_handler {s : Shared} {w : WrappedStream}
    (h : ∀ msg q, s.inbox w.streamId = .ok msg :: q → Sound none msg) :
    Sane s (relayEventHandler w none) := by
  constructor
  · intro w' sid k hp msg q hq
    rw [relayEventHandler_eq, relayEventHandler_eq, Prog.act_bind] at hp
    obtain ⟨hw, hk⟩ := Prog.act.inj hp
    obtain rfl : w = w' := Act.read.inj hw
    cases sid with
    | none => exact h msg q hq
    | some sid =>
      -- on an error a handler in a session looks the session up
      have herr := congrFun (eq_of_heq hk) (.error (.io ""))
      cases herr
  · intro sid k hp
    rw [relayEventHandler_eq] at hp
    cases hp
  · intro sid k hp
    rw [relayEventHandler_eq] at hp
    cases hp
  · intro sid w' k hp
    rw [relayEventHandler_eq] at hp
    cases hp
  · intro conn noise k hp
    rw [relayEventHandler_eq] at hp
    cases hp
  · intro conn buf k hp href
    obtain ⟨ref, href⟩ := Option.isSome_iff_exists.mp href
    rw [relayEventHandler_eq, CircuitConn.read, href] at hp
    cases hp
  · intro ref payload buf k hp
    rw [relayEventHandler_eq] at hp
    cases hp

end WhiteNoise.RelayPlane
