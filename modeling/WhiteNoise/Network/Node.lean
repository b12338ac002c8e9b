import WhiteNoise.Network.Utils

/-! # The operations of a node

Requests that wait for an acknowledgement, opening and closing a session, and
the calls of a client.
-/

namespace WhiteNoise

open Wire Process

variable [Codec] [Crypto]

namespace Node

def handleCloseSession (sessionId : String) : Async Unit := do
  let sessionOpt ← Async.removeSession sessionId
  match sessionOpt with
  | none => pure ()
  | some session =>
    match session.pairStream.earlyStream with
    | none => pure ()
    | some early => Async.close early
    match session.pairStream.laterStream with
    | none => pure ()
    | some later => Async.close later
  Async.removeCircuit sessionId
  Async.removeProbe sessionId

omit [Codec] in
/-- The session is removed first. What holds of the end of a close, and stays when a stream is
closed before it, holds of all that is left to do then. -/
theorem handleCloseSession_rest (sessionId : String) {P : Async Unit → Prop}
    (htail : P (do
      Async.removeCircuit sessionId
      Async.removeProbe sessionId))
    (hclose : ∀ w p, P p → P (.act (.close w) fun _ => p)) :
    ∃ k, handleCloseSession sessionId =
        .atomic (fun s => { s with sessionMap := Function.update s.sessionMap sessionId none }) k ∧
      ∀ s, P (k s) := by
  simp only [handleCloseSession, Async.removeSession, Prog.update_bind]
  refine ⟨_, rfl, fun s => ?_⟩
  cases s.sessionMap sessionId with
  | none => exact htail
  | some session =>
    dsimp only
    cases session.pairStream.earlyStream <;> cases session.pairStream.laterStream
    · exact htail
    · exact hclose _ _ htail
    · exact hclose _ _ htail
    · exact hclose _ _ (hclose _ _ htail)

/-- Register the waiter, send the request, wait. -/
def externalSendNodeRequestAndWait (key : String) (nodeRequest : NodeRequest) : Async Ack := do
  let receiver ← Async.registerWaiter key
  Async.send nodeRequest
  Async.awaitAck receiver

def sendAck (remotePeerId : PeerId) (ack : Ack) : Async Unit :=
  Async.send (.ackRequest ⟨remotePeerId, some ack⟩)

/-- A proxy request to a peer under the digest of its contents. -/
def sendProxyRequestAndWait (remotePeerId : PeerId) (request : Request) : Async Ack := do
  let key := fromRequestGetId request
  let request := { request with reqId := key }
  externalSendNodeRequestAndWait key (.proxyRequest ⟨remotePeerId, some request, none⟩)

/-- Open a stream to the peer, tell it the session and its role there, wait for its
acknowledgement, and put the stream into the session. -/
def newSessionToPeer (peerId : PeerId) (sessionId : String) (myRole otherRole : Int32) :
    Async (Option WrappedStream) := do
  match ← Async.newRelayStream peerId with
  | none => return none
  | some wrapedStream =>
    writeRelayWakeArc wrapedStream
    let key ← writeSetSessionWithRoleArc wrapedStream sessionId otherRole
    let receiver ← Async.registerWaiter key
    let _ack ← Async.awaitAck receiver
    Async.spawn (.relayEventHandler wrapedStream (some sessionId))
    if (← Async.getSession sessionId).isNone then
      Async.insertSession sessionId ⟨sessionId, ⟨some wrapedStream, none⟩, myRole⟩
    else
      let session ← Prog.unwrap (← Async.getSession sessionId)
      Async.insertSession sessionId
        { session with pairStream := ⟨session.pairStream.earlyStream, some wrapedStream⟩ }
    return some wrapedStream

/-! ## The calls of a client -/

/-- `Account::from_keypair_to_whitenoise_id` -/
def whitenoiseId (node : Node) : Option String :=
  let encoded := Crypto.bs58Encode (Crypto.publicBytes node.keypair)
  match Crypto.kind node.keypair with
  | .ed25519 => some ("0" ++ encoded)
  | .secp256k1 => some ("1" ++ encoded)
  | .other => none

/-- The request of `register_proxy`, before it gets its identifier. -/
def newProxyRequest (node : Node) (whiteNoiseId : String) : Request where
  reqId := ""
  fromId := node.getId
  reqtype := Reqtype.newProxy.toI32
  data := Codec.encode ({ time := "60m", whiteNoiseId } : NewProxy)

def registerProxy (node : Node) (remotePeerId : PeerId) : Async Bool := do
  let whiteNoiseId ← Prog.unwrap node.whitenoiseId
  let ack ← sendProxyRequestAndWait remotePeerId (node.newProxyRequest whiteNoiseId)
  return ack.result

/-- The request of `get_main_nets`, before it gets its identifier. -/
def mainNetsRequest (cnt : Int32) : Request where
  reqId := ""
  fromId := ""
  reqtype := Reqtype.mainNetPeers.toI32
  data := Codec.encode ({ max := cnt } : MainNetPeers)

/-- The peers of the main net that have an address. -/
def getMainNets (cnt : Int32) (remotePeerId : PeerId) : Async PeersList := do
  let ack ← sendProxyRequestAndWait remotePeerId (mainNetsRequest cnt)
  let peerList : PeersList ← Prog.unwrap (Codec.decode ack.data)
  return ⟨peerList.peers.filter fun peer => !peer.addr.isEmpty⟩

/-- The request of `new_circuit`, before it gets its identifier. -/
def newCircuitRequest (localPeerId : String) (newCircuit : NewCircuit) : Request where
  reqId := ""
  fromId := localPeerId
  reqtype := Reqtype.newCircuit.toI32
  data := Codec.encode newCircuit

def newCircuit (remoteWhitenoiseId localWhitenoiseId localPeerId sessionId : String)
    (proxyId : PeerId) : Async Unit := do
  let fromId ← Prog.unwrap (fromWhitenoiseToHash localWhitenoiseId)
  let toId ← Prog.unwrap (fromWhitenoiseToHash remoteWhitenoiseId)
  let _ack ← sendProxyRequestAndWait proxyId
    (newCircuitRequest localPeerId { fromId, toId, sessionId })

/-- Eight bytes, big endian. -/
def bytesOfMicros (n : ℕ) : Bytes := (List.range 8).map fun i => UInt8.ofNat (n / 256 ^ (7 - i))

def generateSessionId (remoteId localId : String) (now : ℕ) : String :=
  fromBytesGetId (utf8 localId ++ utf8 remoteId ++ bytesOfMicros now)

def dial (node : Node) (remoteWhitenoiseId : String) : Async String := do
  let localWhitenoiseId ← Prog.unwrap node.whitenoiseId
  let now ← Prog.call Act.now
  let sessionId := generateSessionId remoteWhitenoiseId localWhitenoiseId now
  let (index, pub) ← Prog.unwrap (splitAtOne remoteWhitenoiseId)
  let pubBytes ← Prog.unwrap (Crypto.bs58Decode pub)
  let compositBytes := utf8 (String.singleton index) ++ pubBytes
  Prog.write fun s =>
    { s with circuitTask := Function.update s.circuitTask sessionId (some compositBytes) }
  let proxyId ← Prog.unwrap node.proxyId
  let stream ← Prog.unwrap (← newSessionToPeer proxyId sessionId
    SessionRole.callerRole.toI32 SessionRole.entryRole.toI32)
  let inChannel ← Async.newChannel
  Async.insertCircuit sessionId ⟨sessionId, stream, inChannel, none⟩
  newCircuit remoteWhitenoiseId localWhitenoiseId node.getId sessionId proxyId
  return sessionId

/-- The rest of `dial`, after the key of the callee is stored under the session. -/
def enterCircuit (node : Node) (remoteWhitenoiseId localWhitenoiseId sessionId : String) :
    Async String := do
  let proxyId ← Prog.unwrap node.proxyId
  let stream ← Prog.unwrap (← newSessionToPeer proxyId sessionId
    SessionRole.callerRole.toI32 SessionRole.entryRole.toI32)
  let inChannel ← Async.newChannel
  Async.insertCircuit sessionId ⟨sessionId, stream, inChannel, none⟩
  newCircuit remoteWhitenoiseId localWhitenoiseId node.getId sessionId proxyId
  return sessionId

/-- The key of the callee, behind the byte for its kind, under the session. -/
def putTask (sessionId : String) (composit : Bytes) (s : Shared) : Shared :=
  { s with circuitTask := Function.update s.circuitTask sessionId (some composit) }

theorem dial_eq {node : Node} {remoteId localId pub : String} {index : Char} {pubBytes : Bytes}
    (hlocal : node.whitenoiseId = some localId) (hsplit : splitAtOne remoteId = some (index, pub))
    (hdec : Crypto.bs58Decode pub = some pubBytes) :
    node.dial remoteId = (do
      let now ← Prog.call Act.now
      let sessionId := generateSessionId remoteId localId now
      Prog.write (putTask sessionId (utf8 (String.singleton index) ++ pubBytes))
      enterCircuit node remoteId localId sessionId) := by
  simp only [dial, hlocal, hsplit, hdec, Prog.unwrap_some, Prog.ret_bind]
  rfl

end Node

end WhiteNoise
