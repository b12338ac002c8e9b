import WhiteNoise.Network.Node

/-! # The handler of a relay stream

One task per stream reads its frames and acts on the session they name. The
Noise handshake of a circuit runs in a task of its own.
-/

namespace WhiteNoise

open Wire Process

variable [Codec] [Crypto]

/-! ## Probes, success and data -/

def handleRelayProbe (sessionId : String) (stream : WrappedStream) (relay : Relay) :
    Async Unit := do
  let probe : ProbeSignal ← Prog.unwrap (Codec.decode relay.data)
  match ← Async.getSession sessionId with
  | none => return ()
  | some session =>
    if session.sessionRole = SessionRole.sinkRole.toI32 then
      if (← Async.getProbe sessionId).isSome then
        let existProbe ← Prog.unwrap (← Async.getProbe sessionId)
        if existProbe.rand = probe.data then
          sendRelayTwoway session (newRelayCircuitSuccess sessionId)
        else
          Node.handleCloseSession sessionId
      else
        Async.insertProbe sessionId ⟨sessionId, probe.data⟩
    else if session.ready then
      forwardRelay session stream.streamId relay

def handleSuccess (stream : WrappedStream) (relay : Relay) : Async Unit := do
  match (Codec.decode relay.data : Option CircuitSuccess) with
  | none => return ()
  | some relaySuccess =>
    match ← Async.getSession relaySuccess.sessionId with
    | none => return ()
    | some session =>
      if session.sessionRole = SessionRole.callerRole.toI32 then
        let circuitConn ← Prog.unwrap (← Async.getCircuit relaySuccess.sessionId)
        Async.spawn (.processHandshake circuitConn true relaySuccess.sessionId)
      else if session.sessionRole = SessionRole.answerRole.toI32 then
        let circuitConn ← Prog.unwrap (← Async.getCircuit relaySuccess.sessionId)
        Async.spawn (.processHandshake circuitConn false relaySuccess.sessionId)
      else if session.ready then
        forwardRelay session stream.streamId relay

/-- Push the data into the incoming channel of the circuit, under one lock of `circuit_map`. -/
def pushData (sessionId : String) (data : Bytes) : Async Unit :=
  Prog.write fun s =>
    match s.circuitMap sessionId with
    | none => s
    | some conn =>
      let queue := s.channels conn.inChannel ++ [data]
      { s with channels := Function.update s.channels conn.inChannel queue }

def handleRelayMsg (stream : WrappedStream) (relay : Relay) : Async Unit := do
  match (Codec.decode relay.data : Option RelayMsg) with
  | none => return ()
  | some relayMsg =>
    match ← Async.getSession relayMsg.sessionId with
    | none => return ()
    | some session =>
      if session.sessionRole = SessionRole.answerRole.toI32 ∨
          session.sessionRole = SessionRole.callerRole.toI32 then
        pushData relayMsg.sessionId relayMsg.data
      else if session.ready then
        forwardRelay session stream.streamId relay

/-! ## Joining a session -/

/-- Make a circuit connection over the stream unless the session has one, under one lock. -/
def addCircuitConn (sessionId : String) (stream : WrappedStream) : Async Unit :=
  Prog.write fun s =>
    match s.circuitMap sessionId with
    | some _ => s
    | none =>
      let conn : CircuitConn := ⟨sessionId, stream, s.nextChannel, none⟩
      { s with
        circuitMap := Function.update s.circuitMap sessionId (some conn)
        nextChannel := s.nextChannel + 1 }

/-- Read the session and replace its later stream, under one lock. -/
def Shared.joinSession (sessionId : String) (stream : WrappedStream) (s : Shared) : Shared :=
  match s.sessionMap sessionId with
  | none => s
  | some session =>
    let pairStream := ⟨session.pairStream.earlyStream, some stream⟩
    let session := { session with pairStream := pairStream }
    { s with sessionMap := Function.update s.sessionMap sessionId (some session) }

def handleSetSession (relaySetSession : SetSessionIdMsg) (stream : WrappedStream)
    (relayId : String) : Async Unit := do
  let sessionId := relaySetSession.sessionId
  let ack := Node.sendAck stream.remotePeerId ⟨relayId, true, []⟩
  match ← Async.getSession sessionId with
  | none =>
    Async.insertSession sessionId ⟨sessionId, ⟨some stream, none⟩, relaySetSession.role⟩
    ack
  | some session =>
    if session.sessionRole = SessionRole.entryRole.toI32 ∧
        relaySetSession.role = SessionRole.relayRole.toI32 then
      -- the entry node is asked to be the relay
      if session.ready then
        Async.insertSession sessionId
          { session with pairStream := ⟨session.pairStream.earlyStream, some stream⟩ }
        let toCloseStream ← Prog.unwrap session.pairStream.laterStream
        writeDisconnectArc toCloseStream sessionId
        Async.close toCloseStream
        ack
      else
        Node.handleCloseSession sessionId
    else
      let found ← Prog.update (Shared.joinSession sessionId stream)
        fun s => (s.sessionMap sessionId).isSome
      if found then ack else Prog.fail

/-! ## The loop -/

/-- Whether the stream is one of the two of the session. -/
def PairStream.has (pair : PairStream) (streamId : ℕ) : Bool :=
  pair.earlyStream.any (·.streamId = streamId) || pair.laterStream.any (·.streamId = streamId)

/-- What the loop does with one frame: the session it goes on with, or `none` to stop. -/
def relayEvent (stream : WrappedStream) (sessionId : Option String) (relay : Relay) :
    Async (Option (Option String)) := do
  if relay.type = Relaytype.wake.toI32 then
    return some sessionId
  else if relay.type = Relaytype.ack.toI32 then
    return some sessionId
  else if relay.type = Relaytype.probe.toI32 then
    handleRelayProbe (← Prog.unwrap sessionId) stream relay
    return some sessionId
  else if relay.type = Relaytype.disconnect.toI32 then
    match (Codec.decode relay.data : Option Disconnect) with
    | none => return none
    | some disconnect =>
      Node.handleCloseSession disconnect.sessionId
      return none
  else if relay.type = Relaytype.setSessionId.toI32 then
    let relaySetSession : SetSessionIdMsg ← Prog.unwrap (Codec.decode relay.data)
    let current := sessionId.getD relaySetSession.sessionId
    if relaySetSession.role = SessionRole.answerRole.toI32 then
      addCircuitConn current stream
    handleSetSession relaySetSession stream relay.id
    return some (some current)
  else if relay.type = Relaytype.success.toI32 then
    handleSuccess stream relay
    return some sessionId
  else if relay.type = Relaytype.data.toI32 then
    handleRelayMsg stream relay
    return some sessionId
  else
    return some sessionId

section

variable {stream : WrappedStream} {sessionId : Option String} {relay : Relay}

theorem relayEvent_probe (h : relay.type = Relaytype.probe.toI32) :
    relayEvent stream sessionId relay = (do
      handleRelayProbe (← Prog.unwrap sessionId) stream relay
      return some sessionId) := by
  simp [relayEvent, h, Relaytype.toI32]

theorem relayEvent_disconnect (h : relay.type = Relaytype.disconnect.toI32) :
    relayEvent stream sessionId relay =
      match (Codec.decode relay.data : Option Disconnect) with
      | none => return none
      | some disconnect => do
        Node.handleCloseSession disconnect.sessionId
        return none := by
  simp [relayEvent, h, Relaytype.toI32]

theorem relayEvent_setSessionId (h : relay.type = Relaytype.setSessionId.toI32) :
    relayEvent stream sessionId relay = (do
      let relaySetSession : SetSessionIdMsg ← Prog.unwrap (Codec.decode relay.data)
      let current := sessionId.getD relaySetSession.sessionId
      if relaySetSession.role = SessionRole.answerRole.toI32 then
        addCircuitConn current stream
      handleSetSession relaySetSession stream relay.id
      return some (some current)) := by
  simp [relayEvent, h, Relaytype.toI32]

theorem relayEvent_success (h : relay.type = Relaytype.success.toI32) :
    relayEvent stream sessionId relay = (do
      handleSuccess stream relay
      return some sessionId) := by
  simp [relayEvent, h, Relaytype.toI32]

theorem relayEvent_data (h : relay.type = Relaytype.data.toI32) :
    relayEvent stream sessionId relay = (do
      handleRelayMsg stream relay
      return some sessionId) := by
  simp [relayEvent, h, Relaytype.toI32]

end

/-- After a read error: close the session if the stream still belongs to it. -/
def relayStreamError (stream : WrappedStream) (sessionId : Option String) : Async Unit := do
  match sessionId with
  | none => return ()
  | some sessionId =>
    let session ← Async.getSession sessionId
    if session.any fun session => session.pairStream.has stream.streamId then
      Node.handleCloseSession sessionId

/-- One turn of the loop; `some t` is the next turn. -/
def relayEventHandler (stream : WrappedStream) (sessionId : Option String) :
    Async (Option Task) := do
  match ← readFromNegotiatedArc stream with
  | .error _ =>
    relayStreamError stream sessionId
    return none
  | .ok relay =>
    match ← relayEvent stream sessionId relay with
    | none => return none
    | some sessionId => return some (.relayEventHandler stream sessionId)

/-- The turn that begins with a read. -/
theorem relayEventHandler_eq (stream : WrappedStream) (sessionId : Option String) :
    relayEventHandler stream sessionId = .act (.read stream) fun res =>
      match res with
      | .error _ => do
        relayStreamError stream sessionId
        return none
      | .ok msg => do
        let relay : Relay ← Prog.unwrap (Codec.decode msg)
        match ← relayEvent stream sessionId relay with
        | none => return none
        | some sessionId => return some (.relayEventHandler stream sessionId) := by
  simp only [relayEventHandler, readFromNegotiatedArc, Prog.call_bind, Prog.act_bind]
  congr
  funext res
  cases res with
  | error e => rfl
  | ok msg => simp only [bind_assoc, Prog.pure_eq, Prog.ret_bind]

/-! ## The handshake -/

/-- The message behind the two length bytes, and the noise state after reading it. -/
def handleReadShake (data : Bytes) (noise : Crypto.Handshake) :
    Option (Crypto.Handshake × Bytes) := do
  let hi ← data[0]?
  let lo ← data[1]?
  let bufLen := hi.toNat * 256 + lo.toNat
  if 2 + bufLen ≤ data.length then
    Crypto.readMessage noise ((data.drop 2).take bufLen)
  else none

def writeShake (circuitConn : CircuitConn) (sessionId : String) (noise : Crypto.Handshake)
    (payload : Bytes) : Async Crypto.Handshake := do
  let rand ← Prog.call Act.randomBytes
  let (noise, buf) ← Prog.unwrap (Crypto.writeMessage rand noise payload)
  writeHandshakePayloadArc circuitConn.outStream buf buf.length sessionId
  return noise

def readShake (circuitConn : CircuitConn) (noise : Crypto.Handshake) :
    Async (Crypto.Handshake × Bytes) := do
  let data ← Prog.call (Act.nextData circuitConn.inChannel)
  Prog.unwrap (handleReadShake data noise)

/-- Switch to transport mode and mark the circuit established. -/
def establish (circuitConn : CircuitConn) (sessionId : String) (noise : Crypto.Handshake) :
    Async Unit := do
  let transport ← Prog.unwrap (Crypto.intoTransportMode noise)
  let transportState ← Async.newTransport transport
  Async.insertCircuit sessionId { circuitConn with transportState := some transportState }

def processHandshake (node : Node) (circuitConn : CircuitConn) (initiate : Bool)
    (sessionId : String) : Async Unit := do
  let seed ← Prog.call Act.randomBytes
  let noiseKeys ← Prog.unwrap (Crypto.intoAuthentic seed node.keypair)
  if initiate then
    let noise ← Prog.unwrap (Crypto.buildInitiator noiseKeys)
    let noise ← writeShake circuitConn sessionId noise []
    let (noise, payload) ← readShake circuitConn noise
    let pubkey ← Prog.unwrap (Crypto.getRemoteStatic noise)
    -- the result is only logged
    let _verifySuccess ← Prog.unwrap (handleRemoteHandshakePayload payload pubkey)
    let payload ← Prog.unwrap (generateHandshakePayload noiseKeys)
    let noise ← writeShake circuitConn sessionId noise payload
    establish circuitConn sessionId noise
  else
    let _selfVerify ← Prog.unwrap ((Crypto.identitySig noiseKeys).map
      (Crypto.identityVerify noiseKeys (noisePrefix ++ Crypto.noisePublic noiseKeys)))
    let noise ← Prog.unwrap (Crypto.buildResponder noiseKeys)
    let (noise, _) ← readShake circuitConn noise
    let payload ← Prog.unwrap (generateHandshakePayload noiseKeys)
    let noise ← writeShake circuitConn sessionId noise payload
    let (noise, payload) ← readShake circuitConn noise
    let pubkey ← Prog.unwrap (Crypto.getRemoteStatic noise)
    -- the result is only logged
    let _verifySuccess ← Prog.unwrap (handleRemoteHandshakePayload payload pubkey)
    establish circuitConn sessionId noise

end WhiteNoise
