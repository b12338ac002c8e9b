import WhiteNoise.Network.Async

/-! # Frames

How frames are built, padded, identified and written to a stream, and how they
are read back. The jitter before a write only delays it.
-/

namespace WhiteNoise

open Wire Process

variable [Codec] [Crypto]

def bufLen : ℕ := 65536
def confusionMaxProportion : ℕ := 10
def confusionPadLen : ℕ := 10

/-- The base58 text of the SHA-256 digest. -/
def fromBytesGetId (buf : Bytes) : String := Crypto.bs58Encode (Crypto.sha256 buf)

def fromRequestGetId (request : Request) : String := fromBytesGetId (Codec.encode request)

/-- `str::split_at(1)`, which panics unless the first character is a single byte. -/
def splitAtOne (s : String) : Option (Char × String) :=
  match s.toList with
  | [] => none
  | c :: cs => if c.utf8Size = 1 then some (c, String.ofList cs) else none

def fromWhitenoiseToHash (whitenoiseId : String) : Option String := do
  let (_, pub) ← splitAtOne whitenoiseId
  let whitenoiseBytes ← Crypto.bs58Decode pub
  some (Crypto.bs58Encode (Crypto.sha256 whitenoiseBytes))

/-- `PeerId::from_bytes(bs58::decode(id).into_vec())` -/
def peerIdOfBase58 (id : String) : Option PeerId := do
  Crypto.peerIdFromBytes (← Crypto.bs58Decode id)

/-! ## Writing -/

/-- The exclusive bound on the length of the padding. -/
def confusionBound (relay : Relay) : ℕ :=
  relay.data.length * confusionMaxProportion / 100 + confusionPadLen

def confusionRelay (relay : Relay) : Async Relay := do
  let confusion ← Prog.call (Act.randomBelow (confusionBound relay))
  return { relay with confusion := confusion }

/-- Pad the frame, make the digest of the padded frame its identifier, and write it. -/
def writeRelayArc (stream : WrappedStream) (relay : Relay) : Async String := do
  let relay ← confusionRelay relay
  let key := fromBytesGetId (Codec.encode relay)
  let relay := { relay with id := key }
  Async.write stream (Codec.encode relay)
  return key

/-- `put_u16`, big endian, of the low 16 bits -/
def putU16 (n : ℕ) : Bytes := [UInt8.ofNat (n / 256), UInt8.ofNat n]

def newRelay (type : Relaytype) (data : Bytes) : Relay where
  id := ""
  type := type.toI32
  data := data
  confusion := []

/-- The frame of a payload behind its length. -/
def payloadRelay (buf : Bytes) (sessionId : String) : Relay :=
  newRelay .data (Codec.encode ({ sessionId, data := putU16 buf.length ++ buf } : RelayMsg))

def writePayloadArc (stream : WrappedStream) (buf : Bytes) (len : ℕ) (sessionId : String) :
    Async Unit := do
  -- `copy_from_slice` panics on any other length; a full buffer would be grown before it
  if buf.length ≠ len ∨ len = 0 then Prog.fail else
  let _ ← writeRelayArc stream (payloadRelay buf sessionId)

def writeHandshakePayloadArc (stream : WrappedStream) (buf : Bytes) (len : ℕ)
    (sessionId : String) : Async Unit :=
  writePayloadArc stream buf len sessionId

def newRelayDisconnect (sessionId : String) : Relay :=
  newRelay .disconnect (Codec.encode ({ sessionId, errCode := 0 } : Disconnect))

def writeDisconnectArc (stream : WrappedStream) (sessionId : String) : Async Unit := do
  let _ ← writeRelayArc stream (newRelayDisconnect sessionId)

def writeRelayWakeArc (stream : WrappedStream) : Async Unit := do
  let _ ← writeRelayArc stream (newRelay .wake [])

def newRelaySetSession (sessionId : String) (sessionRole : Int32) : Relay :=
  newRelay .setSessionId (Codec.encode ({ sessionId, role := sessionRole } : SetSessionIdMsg))

def writeSetSessionWithRoleArc (stream : WrappedStream) (sessionId : String)
    (sessionRole : Int32) : Async String :=
  writeRelayArc stream (newRelaySetSession sessionId sessionRole)

def newRelayCircuitSuccess (sessionId : String) : Relay :=
  newRelay .success (Codec.encode ({ sessionId } : CircuitSuccess))

def newRelayProbe (sessionId : String) : Relay :=
  newRelay .probe
    (Codec.encode ({ sessionId, data := Crypto.sha256 (utf8 sessionId) } : ProbeSignal))

/-- Write the frame to the stream of the session that it did not come from. -/
def forwardRelay (session : Session) (curStreamId : ℕ) (relay : Relay) : Async Unit := do
  let early ← Prog.unwrap session.pairStream.earlyStream
  if early.streamId = curStreamId then
    let later ← Prog.unwrap session.pairStream.laterStream
    let _ ← writeRelayArc later relay
  else
    let later ← Prog.unwrap session.pairStream.laterStream
    if later.streamId = curStreamId then
      let _ ← writeRelayArc early relay

/-- Spawn a write of the frame to each stream of the session. -/
def sendRelayTwoway (session : Session) (relay : Relay) : Async Unit := do
  match session.pairStream.earlyStream with
  | none => pure ()
  | some early => Async.spawn (.writeRelayArc early relay)
  match session.pairStream.laterStream with
  | none => pure ()
  | some later => Async.spawn (.writeRelayArc later relay)

/-! ## Reading -/

/-- One frame of the stream. A frame that does not decode is a failing unwrap. -/
def readFromNegotiatedArc (stream : WrappedStream) : Async (Except ReadOneError Relay) := do
  match ← Prog.call (Act.read stream) with
  | .error e => return .error e
  | .ok msg => return .ok (← Prog.unwrap (Codec.decode msg))

/-! ## Handshake payloads -/

def noisePrefix : Bytes := utf8 "noise-libp2p-static-key:"

/-- Whether the identity key in the payload signs the static key of the remote. -/
def handleRemoteHandshakePayload (payload remoteStatic : Bytes) : Option Bool := do
  let noiseShakehandPayload : NoiseHandshakePayload ← Codec.decode payload
  let idPubKey ← Crypto.fromProtobufEncoding noiseShakehandPayload.identityKey
  some (Crypto.verify idPubKey (noisePrefix ++ remoteStatic) noiseShakehandPayload.identitySig)

def generateHandshakePayload (noiseKeys : Crypto.NoiseKeys) : Option Bytes := do
  let identitySig ← Crypto.identitySig noiseKeys
  some (Codec.encode
    ({ identityKey := Crypto.identityKey noiseKeys, identitySig, data := [] } :
      NoiseHandshakePayload))

end WhiteNoise
