import WhiteNoise.Network.Footprint
import WhiteNoise.Network.System
import WhiteNoise.Process.Courier

/-! # A place on an established path

What one node on the path of a session holds, what belongs to other sessions
there, and the contract of the node's threads: a handler of the path carries
payloads from one side to the other, all other threads keep away from the
path. Couriers and bystanders obey one contract, so that each may rely on what
the others leave alone.
-/

namespace WhiteNoise

open Wire Process

variable [Codec] [Crypto]

/-! ## What a frame is about -/

/-- The session that the frame names. -/
def Relay.names (relay : Relay) : Option String :=
  if relay.type = Relaytype.data.toI32 then
    (Codec.decode relay.data : Option RelayMsg).map (·.sessionId)
  else if relay.type = Relaytype.success.toI32 then
    (Codec.decode relay.data : Option CircuitSuccess).map (·.sessionId)
  else if relay.type = Relaytype.disconnect.toI32 then
    (Codec.decode relay.data : Option Disconnect).map (·.sessionId)
  else if relay.type = Relaytype.setSessionId.toI32 then
    (Codec.decode relay.data : Option SetSessionIdMsg).map (·.sessionId)
  else none

/-- The session that the bytes of a frame name. -/
def frameNames (b : Bytes) : Option String := (Codec.decode b : Option Relay).bind Relay.names

/-- What the frame carries for the session. -/
def Relay.payload (sid : String) (relay : Relay) : Option Bytes :=
  if relay.type = Relaytype.data.toI32 then
    match (Codec.decode relay.data : Option RelayMsg) with
    | some msg => if msg.sessionId = sid then some msg.data else none
    | none => none
  else none

/-- What the bytes of a frame carry for the session. -/
def payloadIn (sid : String) (b : Bytes) : Option Bytes :=
  (Codec.decode b : Option Relay).bind (Relay.payload sid)

/-- What a read carries for the session. -/
def load (sid : String) : ReadResult → Option Bytes
  | .error _ => none
  | .ok b => payloadIn sid b

omit [Crypto] in
theorem Relay.payload_eq_some {sid : String} {relay : Relay} {b : Bytes}
    (h : relay.payload sid = some b) :
    relay.type = Relaytype.data.toI32 ∧ Codec.decode relay.data = some (⟨sid, b⟩ : RelayMsg) := by
  unfold Relay.payload at h
  split at h
  · next htype =>
    refine ⟨htype, ?_⟩
    split at h
    · next msg hmsg =>
      split at h
      · next hx =>
        obtain ⟨x, data⟩ := msg
        cases h
        cases hx
        exact hmsg
      · cases h
    · cases h
  · cases h

omit [Crypto] in
theorem payloadIn_encode (sid : String) (relay : Relay) (confusion : Bytes) (id : String) :
    payloadIn sid (Codec.encode { relay with confusion, id }) = relay.payload sid := by
  simp [payloadIn, Relay.payload]

omit [Crypto] in
theorem frameNames_encode (relay : Relay) (confusion : Bytes) (id : String) :
    frameNames (Codec.encode { relay with confusion, id }) = relay.names := by
  simp [frameNames, Relay.names]

/-! ## Places -/

/-- The two directions of a circuit, by the end that the frames go to. -/
inductive Direction where
  | toAnswer | toCaller
  deriving DecidableEq

/-- The other direction. -/
def Direction.flip : Direction → Direction
  | toAnswer => toCaller
  | toCaller => toAnswer

omit [Codec] [Crypto] in
@[simp] theorem Direction.flip_flip (d : Direction) : d.flip.flip = d := by cases d <;> rfl

omit [Codec] [Crypto] in
theorem Direction.flip_ne (d : Direction) : d.flip ≠ d := by cases d <;> decide

omit [Codec] [Crypto] in
theorem Direction.eq_or_flip (d e : Direction) : e = d ∨ e = d.flip := by
  cases d <;> cases e <;> simp [flip]

/-- The session is forwarded between the two streams. -/
structure Session.Joins (session : Session) (w v : WrappedStream) : Prop where
  distinct : w.streamId ≠ v.streamId
  answer : session.sessionRole ≠ SessionRole.answerRole.toI32
  caller : session.sessionRole ≠ SessionRole.callerRole.toI32
  pair : session.pairStream = ⟨some w, some v⟩ ∨ session.pairStream = ⟨some v, some w⟩

/-- A node on the path of the session. In each direction, frames come from the source if there is
one and go to the target if there is one; at an end of the path, one of the two is the circuit. -/
structure Place where
  node : Node
  sid : String
  session : Session
  circuit : Option CircuitConn
  source : Direction → Option WrappedStream
  target : Direction → Option WrappedStream
  source_has : ∀ d w, source d = some w → session.pairStream.has w.streamId
  target_has : ∀ d w, target d = some w → session.pairStream.has w.streamId
  sources_ne : ∀ d w v, source d = some w → source d.flip = some v → w.streamId ≠ v.streamId
  targets_ne : ∀ d w v, target d = some w → target d.flip = some v → w ≠ v
  target_or : ∀ d, target d = none → target d.flip ≠ none
  joins : ∀ d w v, source d = some w → target d = some v → session.Joins w v
  ends : ∀ d w, source d = some w → target d = none →
    (session.sessionRole = SessionRole.answerRole.toI32 ∨
      session.sessionRole = SessionRole.callerRole.toI32) ∧ circuit.isSome

namespace Place

variable (place : Place)

/-- The stream is one of the path. -/
def guards (w : ℕ) : Bool := place.session.pairStream.has w

omit [Codec] in
theorem source_guards {d : Direction} {w : WrappedStream} (h : place.source d = some w) :
    place.guards w.streamId := place.source_has d w h

omit [Codec] in
theorem target_guards {d : Direction} {w : WrappedStream} (h : place.target d = some w) :
    place.guards w.streamId := place.target_has d w h

/-! ## What belongs to other sessions -/

/-- The frame names another session or none. -/
def FrameApart (b : Bytes) : Prop := frameNames b ≠ some place.sid

def SessionApart (session : Session) : Prop :=
  ∀ w, session.pairStream.has w → place.guards w = false

/-- The circuit has another stream, another channel and another transport state. -/
structure ConnApart (conn : CircuitConn) : Prop where
  id : conn.id ≠ place.sid
  stream : place.guards conn.outStream.streamId = false
  channel : ∀ mine, place.circuit = some mine → conn.inChannel ≠ mine.inChannel
  transport : ∀ mine ref, place.circuit = some mine → mine.transportState = some ref →
    conn.transportState ≠ some ref

/-- The acknowledgement brings no invitation to the session. -/
def AckApart (ack : Ack) : Prop :=
  ∀ negotiate : Negotiate, Codec.decode ack.data = some negotiate → negotiate.sessionId ≠ place.sid

/-- The request does not ask for a circuit of the session. -/
def ProxyApart (r : NodeProxyRequest) : Prop :=
  ∀ request, r.proxyRequest = some request → request.reqtype = Reqtype.newCircuit.toI32 →
    ∀ newCircuit : NewCircuit, Codec.decode request.data = some newCircuit →
      newCircuit.sessionId ≠ place.sid

/-- The command does not extend the session. -/
def CmdApart (r : NodeCmdRequest) : Prop :=
  ∀ request, r.cmdRequest = some request → request.type = Cmdtype.sessionExPend.toI32 →
    ∀ msg : SessionExpend, Codec.decode request.data = some msg → msg.sessionId ≠ place.sid

/-- The task serves other sessions or none in particular. -/
def TaskApart : Task → Prop
  | .relayEventHandler stream current =>
    place.guards stream.streamId = false ∧ current ≠ some place.sid
  | .writeRelayArc stream relay =>
    place.guards stream.streamId = false ∧ relay.names ≠ some place.sid
  | .processHandshake conn _ sid => place.ConnApart conn ∧ sid ≠ place.sid
  | .disconnectCircuit sid => sid ≠ place.sid
  | _ => True

/-- A call of `dial` at this time does not draw the identifier of the session. -/
def Allows (c : Choice) : Prop :=
  ∀ n, c = .micros n → ∀ remote me, place.node.whitenoiseId = some me →
    Node.generateSessionId remote me n ≠ place.sid

/-- What may come from a stream: payloads of the session from a stream of the path, frames of
other sessions and errors from the others. -/
def Arrives (w : ℕ) (res : ReadResult) : Prop :=
  if place.guards w then (load place.sid res).isSome = true else ∀ b, res = .ok b → place.FrameApart b

/-- What may leave the node. -/
def Permits : Output → Prop
  | .write w b =>
    if place.guards w.streamId then (payloadIn place.sid b).isSome = true else place.FrameApart b
  | .close w => place.guards w.streamId = false
  | _ => True

/-! ## The contract -/

/-- The session is established at the place, and everything else there is apart from it. -/
structure Settled (s : Shared) : Prop where
  session : s.sessionMap place.sid = some place.session
  circuit : s.circuitMap place.sid = place.circuit
  sessions : ∀ x session, x ≠ place.sid → s.sessionMap x = some session →
    place.SessionApart session
  circuits : ∀ x conn, x ≠ place.sid → s.circuitMap x = some conn → place.ConnApart conn
  streams : ∀ w, place.guards w → w ∈ s.streams
  channel : ∀ mine, place.circuit = some mine → mine.inChannel < s.nextChannel
  transport : ∀ mine ref, place.circuit = some mine → mine.transportState = some ref →
    ref < s.nextTransport
  acks : ∀ i ack, s.oneshots i = .sent ack → place.AckApart ack
  proxyRequests : ∀ r ∈ s.proxyRequests, place.ProxyApart r
  cmdRequests : ∀ r ∈ s.cmdRequests, place.CmdApart r
  inbox : ∀ w, ∀ res ∈ s.inbox w, place.Arrives w res

/-- The payloads that wait to be read in the direction. -/
def inlet (d : Direction) (s : Shared) : List Bytes :=
  match place.source d with
  | none => []
  | some w => (s.inbox w.streamId).filterMap (load place.sid)

/-- The payloads that wait in the circuit, where the direction ends in one. -/
def arrived (d : Direction) (s : Shared) : List Bytes :=
  match place.target d, place.circuit with
  | none, some conn => s.channels conn.inChannel
  | _, _ => []

/-- The frames written in the direction. -/
def written (d : Direction) (os : List Output) : List Bytes :=
  os.filterMap fun o =>
    match o with
    | .write w b => if place.target d = some w then some b else none
    | _ => none

/-- The payloads written in the direction. -/
def emitted (d : Direction) (os : List Output) : List Bytes :=
  (place.written d os).filterMap (payloadIn place.sid)

/-- What an operation may do: a courier moves payloads in its direction, and nothing else of the
path changes. -/
structure Moves (ρ : Option Direction) (s s' : Shared) (os : List Output) (ts : List Task)
    (inn out : List Bytes) : Prop where
  settled : place.Settled s'
  transports : ∀ mine ref, place.circuit = some mine → mine.transportState = some ref →
    s'.transports ref = s.transports ref
  inlet : ∀ d, place.inlet d s = (if ρ = some d then inn else []) ++ place.inlet d s'
  outlet : ∀ d, place.emitted d os ++ place.arrived d s' =
    place.arrived d s ++ if ρ = some d then out else []
  outputs : ∀ o ∈ os, place.Permits o
  spawned : ∀ t ∈ ts, place.TaskApart t
  idle : ρ = none → inn = [] ∧ out = []

/-- A courier only reads its source, with empty hands, pads and writes. -/
def Asks (d : Direction) (held : List Bytes) : Act → Prop
  | .read w => place.source d = some w ∧ held = []
  | .randomBelow n => 0 < n
  | .write _ _ => True
  | _ => False

/-- The contract of the courier in a direction, or of a bystander. -/
def contract (ρ : Option Direction) : Contract Shared Act Task Choice Output Bytes where
  Inv := place.Settled
  Allows c := ρ = none → place.Allows c
  Asks held a := ∀ d, ρ = some d → place.Asks d held a
  Moves := place.Moves ρ
  mayFail := ρ = none

/-! ## Steps that move nothing -/

section

variable {place} {s s' : Shared} {ρ : Option Direction} {os : List Output} {ts : List Task}

/-- Nothing of the path changes. -/
structure Same (place : Place) (s s' : Shared) : Prop where
  settled : place.Settled s'
  transports : ∀ mine ref, place.circuit = some mine → mine.transportState = some ref →
    s'.transports ref = s.transports ref
  inbox : ∀ w, place.guards w → s'.inbox w = s.inbox w
  channels : ∀ mine, place.circuit = some mine →
    s'.channels mine.inChannel = s.channels mine.inChannel

/-- What leaves the node for other sessions. -/
def Stays (place : Place) : Output → Prop
  | .write w b => place.guards w.streamId = false ∧ place.FrameApart b
  | .close w => place.guards w.streamId = false
  | _ => True

theorem Same.refl (h : place.Settled s) : place.Same s s :=
  ⟨h, fun _ _ _ _ => rfl, fun _ _ => rfl, fun _ _ => rfl⟩

theorem inlet_congr (h : ∀ w, place.guards w → s'.inbox w = s.inbox w) (d : Direction) :
    place.inlet d s' = place.inlet d s := by
  unfold inlet
  cases hw : place.source d with
  | none => rfl
  | some w => simp only [h w.streamId (place.source_guards hw)]

omit [Codec] in
theorem arrived_congr (h : ∀ mine, place.circuit = some mine →
    s'.channels mine.inChannel = s.channels mine.inChannel) (d : Direction) :
    place.arrived d s' = place.arrived d s := by
  unfold arrived
  cases place.target d with
  | some v => rfl
  | none =>
    cases hc : place.circuit with
    | none => rfl
    | some mine => exact h mine hc

theorem written_nil (h : ∀ o ∈ os, place.Stays o) (d : Direction) : place.written d os = [] := by
  rw [written, List.filterMap_eq_nil_iff]
  intro o ho
  cases o with
  | write w b =>
    have hne : place.target d ≠ some w := by
      intro ht
      exact absurd (place.target_guards ht) (by simpa using (h _ ho).1)
    simp only [if_neg hne]
  | _ => rfl

theorem Stays.permits {o : Output} (h : place.Stays o) : place.Permits o := by
  cases o with
  | write w b => simpa only [Permits, h.1, Bool.false_eq_true, if_false] using h.2
  | close w => exact h
  | _ => trivial

/-- What leaves the path alone moves nothing on it. -/
theorem Same.moves (h : place.Same s s') (hos : ∀ o ∈ os, place.Stays o)
    (hts : ∀ t ∈ ts, place.TaskApart t) : place.Moves ρ s s' os ts [] [] where
  settled := h.settled
  transports := h.transports
  inlet d := by simp [inlet_congr h.inbox]
  outlet d := by simp [emitted, written_nil hos, arrived_congr h.channels]
  outputs o ho := (hos o ho).permits
  spawned := hts
  idle _ := ⟨rfl, rfl⟩

theorem Settled.moves_refl (h : place.Settled s) : place.Moves ρ s s [] [] [] [] :=
  (Same.refl h).moves (List.forall_mem_nil _) (List.forall_mem_nil _)

end

end Place

end WhiteNoise
