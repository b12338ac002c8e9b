import WhiteNoise.Network.RelayEventHandler

/-! # The proxy request loop

One task per node takes the proxy requests and the peer disconnects in turn: it
keeps the registry of clients and, as entry node, builds the first half of a
circuit.
-/

namespace WhiteNoise

open Wire Process

variable [Codec] [Crypto]

/-! ## Choosing a peer for a role -/

/-- Whether the scan takes the peer: not failed before, not this node, not the excluded peer, not
the bootstrap peer and, if registered here, not under the destination. -/
def eligible (node : Node) (invalid : List String) (excluded des id : String) : Async Bool := do
  let bootstrapPeerId ← match node.bootPeerId with
    | some p => pure p
    | none => Prog.call Act.randomPeerId
  if id ∉ invalid ∧ id ≠ node.getId ∧ id ≠ excluded ∧ id ≠ bootstrapPeerId.toBase58 then
    match ← Prog.read fun s : Shared => s.clientPeerMap id with
    | none => return true
    | some hash => return (← Prog.unwrap (fromWhitenoiseToHash hash)) != des
  else
    return false

/-- Go round the list from the index on, at most `j` steps, to the first peer that is taken. -/
def scanPeers (node : Node) (nodeinfos : List NodeInfo) (invalid : List String)
    (excluded des : String) : ℕ → UInt64 → Async (Option String)
  | 0, _ => return none
  | j + 1, index => do
    let index := (index + 1).toNat % nodeinfos.length
    let info ← Prog.unwrap nodeinfos[index]?
    if ← eligible node invalid excluded des info.id then
      return some info.id
    else
      scanPeers node nodeinfos invalid excluded des j (UInt64.ofNat index)

/-- Try to open the session to a peer of the list, at most `i` times. A scan that takes no peer
leaves the last one. -/
def tryPeers (node : Node) (nodeinfos : List NodeInfo) (excluded des sessionId : String)
    (myRole otherRole : Int32) : ℕ → List String → PeerId → Async (Option PeerId)
  | 0, _, _ => return none
  | i + 1, invalid, peer => do
    let index ← Prog.call Act.randomUsize
    let found ← scanPeers node nodeinfos invalid excluded des nodeinfos.length index
    let peer ← match found with
      | none => pure peer
      | some id => Prog.unwrap (peerIdOfBase58 id)
    match ← Node.newSessionToPeer peer sessionId myRole otherRole with
    | none =>
      tryPeers node nodeinfos excluded des sessionId myRole otherRole i
        (peer.toBase58 :: invalid) peer
    | some _ => return some peer

/-! ## New circuits -/

/-- The request for the encrypted invitation, before it gets its identifier. -/
def negRequest (node : Node) (negPlain : NegPlaintext) : Request where
  reqId := ""
  fromId := node.getId
  reqtype := Reqtype.negPlainText.toI32
  data := Codec.encode negPlain

/-- After the sink is found: have the caller encrypt the invitation, publish it, send the
probe. -/
def inviteCallee (node : Node) (newCircuit : NewCircuit) (remotePeerId join : PeerId) :
    Async Bool := do
  let neg : Negotiate :=
    { join := join.toBase58, sessionId := newCircuit.sessionId, destination := newCircuit.toId,
      sig := [] }
  let ack ← Node.sendProxyRequestAndWait remotePeerId
    (negRequest node { sessionId := newCircuit.sessionId, neg := Codec.encode neg })
  let encryptedNeg : EncryptedNeg := { des := newCircuit.toId, cypher := ack.data }
  let _published ← Prog.unwrap (← Prog.call (Act.publish (Codec.encode encryptedNeg)))
  match ← Async.getSession newCircuit.sessionId with
  | none => return false
  | some session =>
    sendRelayTwoway session (newRelayProbe newCircuit.sessionId)
    return true

/-- Build the circuit as its entry node. -/
def buildAsEntry (node : Node) (newCircuit : NewCircuit) (remotePeerId : PeerId) :
    Async Bool := do
  match ← Prog.call (Act.getMainNets 100) with
  | none => return false
  | some nodeinfos =>
    let join ← Prog.call Act.randomPeerId
    match ← tryPeers node nodeinfos remotePeerId.toBase58 newCircuit.toId newCircuit.sessionId
        SessionRole.entryRole.toI32 SessionRole.sinkRole.toI32 3 [] join with
    | none =>
      Node.handleCloseSession newCircuit.sessionId
      return false
    | some join => inviteCallee node newCircuit remotePeerId join

/-- Entry and access node are the same: connect the callee directly. -/
def buildAsEntryAndAccess (newCircuit : NewCircuit) (toClientInfo : ClientInfo) :
    Async Bool := do
  match ← Node.newSessionToPeer toClientInfo.peerId newCircuit.sessionId
      SessionRole.accessRole.toI32 SessionRole.answerRole.toI32 with
  | none => return false
  | some _ =>
    match ← Async.getSession newCircuit.sessionId with
    | none => return true
    | some session =>
      sendRelayTwoway session (newRelayCircuitSuccess newCircuit.sessionId)
      return true

def handleNewCircuit (node : Node) (request : Request) (remotePeerId : PeerId) :
    Async Bool := do
  match (Codec.decode request.data : Option NewCircuit) with
  | none => return false
  | some newCircuit =>
    let fromClientInfo ← Prog.read fun s : Shared => s.clientWnMap newCircuit.fromId
    if fromClientInfo.isNone then return false else
    match ← Async.getSession newCircuit.sessionId with
    | none => return false
    | some session =>
      if session.ready then return false else
      match ← Prog.read fun s : Shared => s.clientWnMap newCircuit.toId with
      | some toClientInfo => buildAsEntryAndAccess newCircuit toClientInfo
      | none => buildAsEntry node newCircuit remotePeerId

/-! ## The loop -/

/-- A peer is gone or unregisters: its entry of `client_peer_map`, then the entry of
`client_wn_map` that the first one names. -/
def unregister (peerId : PeerId) : Async Unit := do
  let hash ← Prog.update
    (fun s : Shared =>
      { s with clientPeerMap := Function.update s.clientPeerMap peerId.toBase58 none })
    fun s => s.clientPeerMap peerId.toBase58
  match hash with
  | none => return ()
  | some hash =>
    Prog.write fun s : Shared => { s with clientWnMap := Function.update s.clientWnMap hash none }

def handleNewProxy (request : Request) (remotePeerId : PeerId) : Async Unit := do
  let newProxy : NewProxy ← Prog.unwrap (Codec.decode request.data)
  let hash ← Prog.unwrap (fromWhitenoiseToHash newProxy.whiteNoiseId)
  let find ← Prog.read fun s : Shared => (s.clientWnMap hash).isSome
  if find then
    Node.sendAck remotePeerId ⟨request.reqId, false, utf8 "Proxy already"⟩
  else
    Prog.write fun s : Shared =>
      { s with clientPeerMap := Function.update s.clientPeerMap remotePeerId.toBase58 (some hash) }
    let clientInfo : ClientInfo := ⟨newProxy.whiteNoiseId, remotePeerId, 1, 3600⟩
    Prog.write fun s : Shared =>
      { s with clientWnMap := Function.update s.clientWnMap hash (some clientInfo) }
    Node.sendAck remotePeerId ⟨request.reqId, true, []⟩

def handleDecryptGossip (node : Node) (request : Request) (remotePeerId : PeerId) :
    Async Unit := do
  let decrypt : Decrypt ← Prog.unwrap (Codec.decode request.data)
  let plainText ← match Crypto.kind node.keypair with
    | .ed25519 => Prog.unwrap (Crypto.eciesEd25519Decrypt node.keypair decrypt.cypher)
    | .secp256k1 => Prog.unwrap (Crypto.eciesDecrypt node.keypair decrypt.cypher)
    | .other => Prog.fail
  if (Codec.decode plainText : Option Negotiate).isSome then
    Node.sendAck remotePeerId ⟨request.reqId, true, plainText⟩

def handleNegPlainText (request : Request) (remotePeerId : PeerId) : Async Unit := do
  let negPlaintext : NegPlaintext ← Prog.unwrap (Codec.decode request.data)
  let pubBytes ← Prog.unwrap (← Prog.read fun s : Shared => s.circuitTask negPlaintext.sessionId)
  let kind ← Prog.unwrap pubBytes.head?
  let rand ← Prog.call Act.randomBytes
  let cryptedText ←
    if kind = 48 then
      Prog.unwrap (Crypto.eciesEd25519Encrypt rand pubBytes.tail negPlaintext.neg)
    else
      Prog.unwrap (Crypto.eciesEncrypt rand pubBytes.tail negPlaintext.neg)
  Node.sendAck remotePeerId ⟨request.reqId, true, cryptedText⟩

def handleMainNetPeers (request : Request) (remotePeerId : PeerId) : Async Unit := do
  let mainNetPeers : MainNetPeers ← Prog.unwrap (Codec.decode request.data)
  match ← Prog.call (Act.getMainNets mainNetPeers.max) with
  | some peers =>
    Node.sendAck remotePeerId ⟨request.reqId, true, Codec.encode ({ peers } : PeersList)⟩
  | none => Node.sendAck remotePeerId ⟨request.reqId, false, []⟩

/-- One turn of the loop. -/
def processProxyRequest (node : Node) (nodeProxyRequest : NodeProxyRequest) : Async Unit := do
  let remotePeerId := nodeProxyRequest.remotePeerId
  match nodeProxyRequest.peerOperation with
  | some .disconnect => unregister remotePeerId
  | none =>
    let request ← Prog.unwrap nodeProxyRequest.proxyRequest
    if request.reqtype = Reqtype.decryptGossip.toI32 then
      handleDecryptGossip node request remotePeerId
    else if request.reqtype = Reqtype.negPlainText.toI32 then
      handleNegPlainText request remotePeerId
    else if request.reqtype = Reqtype.mainNetPeers.toI32 then
      handleMainNetPeers request remotePeerId
    else if request.reqtype = Reqtype.newProxy.toI32 then
      handleNewProxy request remotePeerId
    else if request.reqtype = Reqtype.unRegisterType.toI32 then
      unregister remotePeerId
    else if request.reqtype = Reqtype.newCircuit.toI32 then
      let res ← handleNewCircuit node request remotePeerId
      Node.sendAck remotePeerId ⟨request.reqId, res, []⟩

end WhiteNoise
