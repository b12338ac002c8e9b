import WhiteNoise.Network.ProxyEventHandler

/-! # The gossip loop and the command loop

As access node, a node answers the invitations of its clients and builds the
second half of the circuit; as relay node, it extends a session to the sink.
-/

namespace WhiteNoise

open Wire Process

variable [Codec] [Crypto]

/-- The request to decrypt an invitation, before it gets its identifier. -/
def decryptRequest (node : Node) (decrypt : Decrypt) : Request where
  reqId := ""
  fromId := node.getId
  reqtype := Reqtype.decryptGossip.toI32
  data := Codec.encode decrypt

/-- The command to extend the session, before it gets its identifier. -/
def sessionExpendCommand (node : Node) (sessionExpend : SessionExpend) : Command where
  commandId := ""
  type := Cmdtype.sessionExPend.toI32
  fromId := node.getId
  data := Codec.encode sessionExpend

/-- Find a relay, have it extend the session to the sink, send the probe. -/
def buildAsAccess (node : Node) (negotiate : Negotiate) (des : String) : Async Unit := do
  match ← Prog.call (Act.getMainNets 100) with
  | none => return ()
  | some nodeinfos =>
    let relay ← Prog.call Act.randomPeerId
    match ← tryPeers node nodeinfos negotiate.join des negotiate.sessionId
        SessionRole.accessRole.toI32 SessionRole.relayRole.toI32 3 [] relay with
    | none => Node.handleCloseSession negotiate.sessionId
    | some relay =>
      let command := sessionExpendCommand node
        { sessionId := negotiate.sessionId, peerId := negotiate.join }
      let key := fromBytesGetId (Codec.encode command)
      let command := { command with commandId := key }
      let ack ← Node.externalSendNodeRequestAndWait key (.cmdRequest ⟨relay, some command⟩)
      if !ack.result then
        Node.handleCloseSession negotiate.sessionId
      else
        match ← Async.getSession negotiate.sessionId with
        | none => return ()
        | some session => sendRelayTwoway session (newRelayProbe negotiate.sessionId)

/-- One turn of the gossip loop. -/
def processPublishRequest (node : Node) (data : Bytes) : Async Unit := do
  let encryptedNeg : EncryptedNeg ← Prog.unwrap (Codec.decode data)
  if (← Prog.read fun s : Shared => (s.clientWnMap encryptedNeg.des).isSome) then
    let clientInfo ← Prog.unwrap (← Prog.read fun s : Shared => s.clientWnMap encryptedNeg.des)
    let decrypt : Decrypt := { destination := encryptedNeg.des, cypher := encryptedNeg.cypher }
    let ack ← Node.sendProxyRequestAndWait clientInfo.peerId (decryptRequest node decrypt)
    if !ack.result then return () else
    let negotiate : Negotiate ← Prog.unwrap (Codec.decode ack.data)
    match ← Node.newSessionToPeer clientInfo.peerId negotiate.sessionId
        SessionRole.accessRole.toI32 SessionRole.answerRole.toI32 with
    | none => Node.handleCloseSession negotiate.sessionId
    | some _ =>
      if negotiate.join = node.getId then
        -- this node is also the sink
        match ← Async.getSession negotiate.sessionId with
        | none => return ()
        | some session =>
          sendRelayTwoway session (newRelayCircuitSuccess negotiate.sessionId)
      else
        buildAsAccess node negotiate encryptedNeg.des

/-- One turn of the command loop. -/
def processCmdRequest (nodeCmdRequest : NodeCmdRequest) : Async Unit := do
  let remotePeerId := nodeCmdRequest.remotePeerId
  let request ← Prog.unwrap nodeCmdRequest.cmdRequest
  if request.type = Cmdtype.sessionExPend.toI32 then
    let sessionExpend : SessionExpend ← Prog.unwrap (Codec.decode request.data)
    match ← Async.getSession sessionExpend.sessionId with
    | none =>
      Node.handleCloseSession sessionExpend.sessionId
      Node.sendAck remotePeerId ⟨request.commandId, false, utf8 "No such session"⟩
    | some session =>
      if session.ready then
        Node.sendAck remotePeerId ⟨request.commandId, true, []⟩
        sendRelayTwoway session (newRelayCircuitSuccess sessionExpend.sessionId)
      else
        let sinkPeerId ← Prog.unwrap (peerIdOfBase58 sessionExpend.peerId)
        match ← Node.newSessionToPeer sinkPeerId sessionExpend.sessionId
            SessionRole.relayRole.toI32 SessionRole.sinkRole.toI32 with
        | none =>
          Node.handleCloseSession sessionExpend.sessionId
          Node.sendAck remotePeerId ⟨request.commandId, false, utf8 "new session error"⟩
        | some _ => Node.sendAck remotePeerId ⟨request.commandId, true, []⟩

end WhiteNoise
