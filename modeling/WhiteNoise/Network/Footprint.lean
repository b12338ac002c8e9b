import WhiteNoise.Network.System

/-! # What a task can change

Every lock acquisition of the code is one of a few updates of the shared state.
The classification is by the maps they touch, the sessions they are about, and
for a new waiter by what its key is the digest of. Sessions are removed by a
close only, so a close is one piece of the functions of the code.
-/

namespace WhiteNoise

open Wire Process

variable [Codec] [Crypto]

/-- What a key in `event_bus` is the digest of: a request or a command without its identifier,
or a padded frame without its identifier. -/
inductive Contents where
  | request (r : Request)
  | command (c : Command)
  | frame (r : Relay)
  deriving DecidableEq

def Contents.bytes : Contents → Bytes
  | request r => Codec.encode r
  | command c => Codec.encode c
  | frame r => Codec.encode r

def Contents.key (c : Contents) : String := fromBytesGetId c.bytes

/-- The updates of the shared state. -/
inductive Update where
  | look
  | session (sid : String) (f : Option Session → Option Session)
  | circuit (sid : String) (conn : Option CircuitConn)
  | addCircuit (sid : String) (stream : WrappedStream)
  | probe (sid : String) (probe : Option Probe)
  | waiter (contents : Contents)
  | task (sid : String) (b : Bytes)
  | channel
  | transport (t : Crypto.Transport)
  | data (sid : String) (b : Bytes)
  | peer (id : String) (hash : Option String)
  | wn (hash : String) (info : Option ClientInfo)

namespace Update

def apply : Update → Shared → Shared
  | look, s => s
  | session sid f, s =>
    { s with sessionMap := Function.update s.sessionMap sid (f (s.sessionMap sid)) }
  | circuit sid conn, s => { s with circuitMap := Function.update s.circuitMap sid conn }
  | addCircuit sid stream, s =>
    match s.circuitMap sid with
    | some _ => s
    | none =>
      let conn : CircuitConn := ⟨sid, stream, s.nextChannel, none⟩
      { s with
        circuitMap := Function.update s.circuitMap sid (some conn)
        nextChannel := s.nextChannel + 1 }
  | probe sid p, s => { s with probeMap := Function.update s.probeMap sid p }
  | waiter contents, s => s.register contents.key
  | task sid b, s => { s with circuitTask := Function.update s.circuitTask sid (some b) }
  | channel, s => { s with nextChannel := s.nextChannel + 1 }
  | transport t, s =>
    { s with
      transports := Function.update s.transports s.nextTransport (some t)
      nextTransport := s.nextTransport + 1 }
  | data sid b, s =>
    match s.circuitMap sid with
    | none => s
    | some conn =>
      let queue := s.channels conn.inChannel ++ [b]
      { s with channels := Function.update s.channels conn.inChannel queue }
  | peer id hash, s => { s with clientPeerMap := Function.update s.clientPeerMap id hash }
  | wn hash info, s => { s with clientWnMap := Function.update s.clientWnMap hash info }

/-- The update removes no session. -/
def Gentle : Update → Prop
  | session _ f => ∀ o, o.isSome → (f o).isSome
  | _ => True

end Update

/-- How the functions of the code are put together: from requests, updates that remove no session,
written frames, whose results are digests, and closes of sessions. -/
inductive Composed : {α : Type} → Async α → Prop
  | ret {α : Type} (a : α) : Composed (.ret a : Async α)
  | fail {α : Type} : Composed (.fail : Async α)
  | bind {α β : Type} {p : Async α} {g : α → Async β} (hp : Composed p)
      (hg : ∀ a, Composed (g a)) : Composed (p >>= g)
  | call (a : Act) : Composed (Prog.call a : Async a.Res)
  | update {α : Type} (u : Update) (hu : u.Gentle) (g : Shared → α) :
      Composed (Prog.update u.apply g)
  | written {α : Type} (stream : WrappedStream) (relay : Relay) {g : String → Async α}
      (hg : ∀ padded : Relay, Composed (g (Contents.frame padded).key)) :
      Composed (writeRelayArc stream relay >>= g)
  | close (sid : String) : Composed (Node.handleCloseSession sid)

namespace Composed

variable {α : Type}

theorem pure (a : α) : Composed (Pure.pure a : Async α) := .ret a

theorem read (g : Shared → α) : Composed (Prog.read g) := .update .look trivial g

theorem write (u : Update) (hu : u.Gentle) : Composed (Prog.write u.apply) :=
  .update u hu fun _ => ()

theorem unwrap (o : Option α) : Composed (Prog.unwrap o : Async α) := by
  cases o with
  | none => exact .fail
  | some a => exact .ret a

theorem ite {c : Prop} [Decidable c] {p q : Async α} (hp : Composed p) (hq : Composed q) :
    Composed (if c then p else q) := by
  split <;> assumption

end Composed

/-- Every state change of the program is an update. -/
def Touches {α : Type} (p : Async α) : Prop :=
  p.Within (fun f => ∃ u : Update, f = u.apply) (fun _ => True) (fun _ => True)

theorem handleCloseSession_touches (sid : String) : Touches (Node.handleCloseSession sid) := by
  have htail : Touches (do
      Async.removeCircuit sid
      Async.removeProbe sid) :=
    ⟨⟨.circuit sid none, rfl⟩, fun _ => ⟨⟨.probe sid none, rfl⟩, fun _ => trivial⟩⟩
  obtain ⟨k, hk, hrest⟩ :=
    Node.handleCloseSession_rest sid htail fun w p hp => ⟨trivial, fun _ => hp⟩
  rw [hk]
  exact ⟨⟨.session sid fun _ => none, rfl⟩, hrest⟩

theorem Composed.touches {α : Type} {p : Async α} (h : Composed p) : Touches p := by
  induction h with
  | ret | fail => trivial
  | bind hp hg ihp ihg =>
    exact Prog.Within.bind (ihp.mono (fun _ h => h) (fun _ h => h) fun a _ => ihg a)
  | call a => exact ⟨trivial, fun _ => trivial⟩
  | update u hu g => exact ⟨⟨u, rfl⟩, fun _ => trivial⟩
  | written stream relay hg ihg => exact ⟨trivial, fun _ => ⟨trivial, fun _ => ihg _⟩⟩
  | close sid => exact handleCloseSession_touches sid

/-! ## Frames -/

variable {stream : WrappedStream} {relay : Relay} {sessionId : String}

theorem confusionRelay_composed : Composed (confusionRelay relay) :=
  .bind (.call _) fun _ => .pure _

theorem writeRelayArc_composed : Composed (writeRelayArc stream relay) :=
  .bind confusionRelay_composed fun _ => .bind (.call _) fun _ => .pure _

theorem writePayloadArc_composed {buf : Bytes} {len : ℕ} :
    Composed (writePayloadArc stream buf len sessionId) :=
  .ite .fail (.bind writeRelayArc_composed fun _ => .pure _)

theorem writeDisconnectArc_composed : Composed (writeDisconnectArc stream sessionId) :=
  .bind writeRelayArc_composed fun _ => .pure _

theorem writeRelayWakeArc_composed : Composed (writeRelayWakeArc stream) :=
  .bind writeRelayArc_composed fun _ => .pure _

theorem forwardRelay_composed {session : Session} {curStreamId : ℕ} :
    Composed (forwardRelay session curStreamId relay) := by
  refine .bind (.unwrap _) fun early => .ite ?_ ?_
  · exact .bind (.unwrap _) fun _ => .bind writeRelayArc_composed fun _ => .pure _
  · refine .bind (.unwrap _) fun _ => .ite ?_ (.pure _)
    exact .bind writeRelayArc_composed fun _ => .pure _

theorem sendRelayTwoway_composed {session : Session} :
    Composed (sendRelayTwoway session relay) := by
  unfold sendRelayTwoway
  cases session.pairStream.earlyStream <;> cases session.pairStream.laterStream
  · exact .pure _
  · exact .call _
  · exact .bind (.call _) fun _ => .pure _
  · exact .bind (.call _) fun _ => .call _

theorem readFromNegotiatedArc_composed : Composed (readFromNegotiatedArc stream) := by
  refine .bind (.call _) fun r => ?_
  cases r with
  | error => exact .pure _
  | ok => exact .bind (.unwrap _) fun _ => .pure _

/-! ## The operations of a node -/

section

variable {node : Node} {peer : PeerId}

theorem getSession_composed : Composed (Async.getSession sessionId) := .read _

theorem insertSession_composed {session : Session} :
    Composed (Async.insertSession sessionId session) :=
  .write (.session sessionId fun _ => some session) fun _ _ => rfl

theorem registerWaiter_composed (contents : Contents) :
    Composed (Async.registerWaiter contents.key) :=
  .update (.waiter contents) trivial _

theorem awaitAck_composed {receiver : ℕ} : Composed (Async.awaitAck receiver) :=
  .bind (.call _) fun _ => .unwrap _

theorem handleCloseSession_composed : Composed (Node.handleCloseSession sessionId) := .close _

theorem externalSendNodeRequestAndWait_composed (contents : Contents) {r : NodeRequest} :
    Composed (Node.externalSendNodeRequestAndWait contents.key r) :=
  .bind (registerWaiter_composed contents) fun _ => .bind (.call _) fun _ => awaitAck_composed

theorem sendProxyRequestAndWait_composed {request : Request} :
    Composed (Node.sendProxyRequestAndWait peer request) :=
  externalSendNodeRequestAndWait_composed (.request request)

theorem newSessionToPeer_composed {myRole otherRole : Int32} :
    Composed (Node.newSessionToPeer peer sessionId myRole otherRole) := by
  unfold Node.newSessionToPeer
  refine .bind (.call _) fun stream => ?_
  cases stream with
  | none => exact .pure _
  | some stream =>
    refine .bind writeRelayWakeArc_composed fun _ => ?_
    refine .written _ _ fun padded => ?_
    refine .bind (registerWaiter_composed _) fun _ => .bind awaitAck_composed fun _ => ?_
    refine .bind (.call _) fun _ => .bind getSession_composed fun session => ?_
    split
    · exact .bind insertSession_composed fun _ => .pure _
    · refine .bind getSession_composed fun _ => .bind (.unwrap _) fun _ => ?_
      exact .bind insertSession_composed fun _ => .pure _

theorem registerProxy_composed : Composed (Node.registerProxy node peer) :=
  .bind (.unwrap _) fun _ => .bind sendProxyRequestAndWait_composed fun _ => .pure _

theorem getMainNets_composed {cnt : Int32} : Composed (Node.getMainNets cnt peer) :=
  .bind sendProxyRequestAndWait_composed fun _ => .bind (.unwrap _) fun _ => .pure _

theorem newCircuit_composed {remoteWhitenoiseId localWhitenoiseId localPeerId : String} :
    Composed (Node.newCircuit remoteWhitenoiseId localWhitenoiseId localPeerId sessionId peer) :=
  .bind (.unwrap _) fun _ => .bind (.unwrap _) fun _ =>
    .bind sendProxyRequestAndWait_composed fun _ => .pure _

theorem dial_composed {remoteWhitenoiseId : String} : Composed (Node.dial node remoteWhitenoiseId) := by
  unfold Node.dial
  refine .bind (.unwrap _) fun _ => .bind (.call _) fun now => .bind (.unwrap _) fun index => ?_
  refine .bind (.unwrap _) fun pubBytes => .bind (.write (.task _ _) trivial) fun _ => ?_
  refine .bind (.unwrap _) fun _ => .bind newSessionToPeer_composed fun _ => ?_
  refine .bind (.unwrap _) fun stream => .bind (.update .channel trivial _) fun _ => ?_
  exact .bind (.write (.circuit _ (some _)) trivial) fun _ => .bind newCircuit_composed fun _ => .pure _

end

/-! ## The relay stream handler -/

section

variable {node : Node} {circuitConn : CircuitConn} {noise : Crypto.Handshake}

theorem handleRelayProbe_composed : Composed (handleRelayProbe sessionId stream relay) := by
  refine .bind (.unwrap _) fun probe => .bind getSession_composed fun session => ?_
  cases session with
  | none => exact .pure _
  | some session =>
    refine .ite (.bind (.read _) fun found => .ite ?_ (.write (.probe _ (some _)) trivial)) ?_
    · refine .bind (.read _) fun _ => .bind (.unwrap _) fun _ => ?_
      exact .ite sendRelayTwoway_composed handleCloseSession_composed
    · exact .ite forwardRelay_composed (.pure _)

theorem handleSuccess_composed : Composed (handleSuccess stream relay) := by
  unfold handleSuccess
  cases (Codec.decode relay.data : Option CircuitSuccess) with
  | none => exact .pure _
  | some relaySuccess =>
    refine .bind getSession_composed fun session => ?_
    cases session with
    | none => exact .pure _
    | some session =>
      have hspawn {initiate : Bool} : Composed (do
          let circuitConn ← Prog.unwrap (← Async.getCircuit relaySuccess.sessionId)
          Async.spawn (.processHandshake circuitConn initiate relaySuccess.sessionId)) :=
        .bind (.read _) fun _ => .bind (.unwrap _) fun _ => .call _
      exact .ite hspawn (.ite hspawn (.ite forwardRelay_composed (.pure _)))

theorem handleRelayMsg_composed : Composed (handleRelayMsg stream relay) := by
  unfold handleRelayMsg
  cases (Codec.decode relay.data : Option RelayMsg) with
  | none => exact .pure _
  | some relayMsg =>
    refine .bind getSession_composed fun session => ?_
    cases session with
    | none => exact .pure _
    | some session =>
      exact .ite (.write (.data _ _) trivial) (.ite forwardRelay_composed (.pure _))

/-- Replace the later stream of the session, if it is there. -/
def joinLater (stream : WrappedStream) (session : Option Session) : Option Session :=
  session.map fun session =>
    { session with pairStream := ⟨session.pairStream.earlyStream, some stream⟩ }

omit [Codec] in
theorem joinLater_gentle : (Update.session sessionId (joinLater stream)).Gentle := by
  intro o ho
  simpa [joinLater] using ho

theorem joinLater_apply :
    (Update.session sessionId (joinLater stream)).apply = Shared.joinSession sessionId stream := by
  funext s
  have hself := Function.update_eq_self sessionId s.sessionMap
  simp only [Update.apply, joinLater, Shared.joinSession]
  cases h : s.sessionMap sessionId with
  | none =>
    rw [h] at hself
    simp only [Option.map_none, hself]
  | some session => rfl

theorem handleSetSession_composed {relaySetSession : SetSessionIdMsg} {relayId : String} :
    Composed (handleSetSession relaySetSession stream relayId) := by
  refine .bind getSession_composed fun session => ?_
  cases session with
  | none => exact .bind insertSession_composed fun _ => .call _
  | some session =>
    refine .ite (.ite (.bind insertSession_composed fun _ => ?_) handleCloseSession_composed) ?_
    · refine .bind (.unwrap _) fun _ => .bind writeDisconnectArc_composed fun _ => ?_
      exact .bind (.call _) fun _ => .call _
    · rw [← joinLater_apply]
      exact .bind (.update (.session _ (joinLater stream)) joinLater_gentle _) fun _ => .ite (.call _) .fail

theorem relayEvent_composed {sessionId : Option String} :
    Composed (relayEvent stream sessionId relay) := by
  have hset : Composed (do
      let relaySetSession : SetSessionIdMsg ← Prog.unwrap (Codec.decode relay.data)
      let current := sessionId.getD relaySetSession.sessionId
      if relaySetSession.role = SessionRole.answerRole.toI32 then
        addCircuitConn current stream
      handleSetSession relaySetSession stream relay.id
      return some (some current)) := by
    refine .bind (.unwrap _) fun _ => .ite ?_ ?_
    · refine .bind (.write (.addCircuit _ stream) trivial) fun _ => ?_
      exact .bind handleSetSession_composed fun _ => .pure _
    · exact .bind handleSetSession_composed fun _ => .pure _
  refine .ite (.pure _) (.ite (.pure _) (.ite ?_ (.ite ?_ (.ite hset (.ite ?_ (.ite ?_ ?_))))))
  · exact .bind (.unwrap _) fun _ => .bind handleRelayProbe_composed fun _ => .pure _
  · cases (Codec.decode relay.data : Option Disconnect) with
    | none => exact .pure _
    | some _ => exact .bind handleCloseSession_composed fun _ => .pure _
  · exact .bind handleSuccess_composed fun _ => .pure _
  · exact .bind handleRelayMsg_composed fun _ => .pure _
  · exact .pure _

theorem relayEventHandler_composed {sessionId : Option String} :
    Composed (relayEventHandler stream sessionId) := by
  refine .bind readFromNegotiatedArc_composed fun res => ?_
  cases res with
  | error =>
    refine .bind ?_ fun _ => .pure _
    cases sessionId with
    | none => exact .pure _
    | some sessionId =>
      exact .bind getSession_composed fun _ => .ite handleCloseSession_composed (.pure _)
  | ok relay =>
    refine .bind relayEvent_composed fun next => ?_
    cases next <;> exact .pure _

theorem writeShake_composed {payload : Bytes} :
    Composed (writeShake circuitConn sessionId noise payload) :=
  .bind (.call _) fun _ => .bind (.unwrap _) fun _ => .bind writePayloadArc_composed fun _ => .pure _

theorem readShake_composed : Composed (readShake circuitConn noise) :=
  .bind (.call _) fun _ => .unwrap _

theorem establish_composed : Composed (establish circuitConn sessionId noise) :=
  .bind (.unwrap _) fun transport => .bind (.update (.transport transport) trivial _) fun _ =>
    .write (.circuit _ (some _)) trivial

theorem processHandshake_composed {initiate : Bool} :
    Composed (processHandshake node circuitConn initiate sessionId) := by
  refine .bind (.call _) fun _ => .bind (.unwrap _) fun _ => .ite ?_ ?_
  · refine .bind (.unwrap _) fun _ => .bind writeShake_composed fun _ => ?_
    refine .bind readShake_composed fun _ => .bind (.unwrap _) fun _ => ?_
    refine .bind (.unwrap _) fun _ => .bind (.unwrap _) fun _ => ?_
    exact .bind writeShake_composed fun _ => establish_composed
  · refine .bind (.unwrap _) fun _ => .bind (.unwrap _) fun _ => ?_
    refine .bind readShake_composed fun _ => .bind (.unwrap _) fun _ => ?_
    refine .bind writeShake_composed fun _ => .bind readShake_composed fun _ => ?_
    exact .bind (.unwrap _) fun _ => .bind (.unwrap _) fun _ => establish_composed

end

/-! ## The request loops -/

section

variable {node : Node}

theorem eligible_composed {invalid : List String} {excluded des id : String} :
    Composed (eligible node invalid excluded des id) := by
  unfold eligible
  cases node.bootPeerId with
  | none =>
    refine .bind (.call _) fun _ => .ite (.bind (.read _) fun hash => ?_) (.pure _)
    cases hash with
    | none => exact .pure _
    | some hash => exact .bind (.unwrap _) fun _ => .pure _
  | some p =>
    refine .bind (.pure _) fun _ => .ite (.bind (.read _) fun hash => ?_) (.pure _)
    cases hash with
    | none => exact .pure _
    | some hash => exact .bind (.unwrap _) fun _ => .pure _

theorem scanPeers_composed {nodeinfos : List NodeInfo} {invalid : List String}
    {excluded des : String} {j : ℕ} {index : UInt64} :
    Composed (scanPeers node nodeinfos invalid excluded des j index) := by
  induction j generalizing index with
  | zero => exact .pure _
  | succ j ih =>
    refine .bind (.unwrap _) fun _ => .bind eligible_composed fun _ => ?_
    exact .ite (.pure _) ih

theorem tryPeers_composed {nodeinfos : List NodeInfo} {invalid : List String}
    {excluded des : String} {myRole otherRole : Int32} {i : ℕ} {peer : PeerId} :
    Composed (tryPeers node nodeinfos excluded des sessionId myRole otherRole i invalid peer) := by
  induction i generalizing invalid peer with
  | zero => exact .pure _
  | succ i ih =>
    refine .bind (.call _) fun index => .bind scanPeers_composed fun found => ?_
    cases found with
    | none =>
      refine .bind (.pure _) fun _ => .bind newSessionToPeer_composed fun stream => ?_
      cases stream with
      | none => exact ih
      | some _ => exact .pure _
    | some id =>
      refine .bind (.unwrap _) fun _ => .bind newSessionToPeer_composed fun stream => ?_
      cases stream with
      | none => exact ih
      | some _ => exact .pure _

theorem inviteCallee_composed {newCircuit : NewCircuit} {remotePeerId join : PeerId} :
    Composed (inviteCallee node newCircuit remotePeerId join) := by
  refine .bind sendProxyRequestAndWait_composed fun _ => .bind (.call _) fun _ => ?_
  refine .bind (.unwrap _) fun _ => .bind getSession_composed fun session => ?_
  cases session with
  | none => exact .pure _
  | some session => exact .bind sendRelayTwoway_composed fun _ => .pure _

theorem buildAsEntry_composed {newCircuit : NewCircuit} {remotePeerId : PeerId} :
    Composed (buildAsEntry node newCircuit remotePeerId) := by
  refine .bind (.call _) fun nodeinfos => ?_
  cases nodeinfos with
  | none => exact .pure _
  | some nodeinfos =>
    refine .bind (.call _) fun _ => .bind tryPeers_composed fun found => ?_
    cases found with
    | none => exact .bind handleCloseSession_composed fun _ => .pure _
    | some _ => exact inviteCallee_composed

theorem buildAsEntryAndAccess_composed {newCircuit : NewCircuit} {toClientInfo : ClientInfo} :
    Composed (buildAsEntryAndAccess newCircuit toClientInfo) := by
  refine .bind newSessionToPeer_composed fun stream => ?_
  cases stream with
  | none => exact .pure _
  | some _ =>
    refine .bind getSession_composed fun session => ?_
    cases session with
    | none => exact .pure _
    | some session => exact .bind sendRelayTwoway_composed fun _ => .pure _

theorem handleNewCircuit_composed {request : Request} {remotePeerId : PeerId} :
    Composed (handleNewCircuit node request remotePeerId) := by
  unfold handleNewCircuit
  cases (Codec.decode request.data : Option NewCircuit) with
  | none => exact .pure _
  | some newCircuit =>
    refine .bind (.read _) fun fromClientInfo => .ite (.pure _) ?_
    refine .bind getSession_composed fun session => ?_
    cases session with
    | none => exact .pure _
    | some session =>
      refine .ite (.pure _) (.bind (.read _) fun toClientInfo => ?_)
      cases toClientInfo with
      | none => exact buildAsEntry_composed
      | some _ => exact buildAsEntryAndAccess_composed

theorem unregister_composed {peerId : PeerId} : Composed (unregister peerId) := by
  refine .bind (.update (.peer peerId.toBase58 none) trivial _) fun hash => ?_
  cases hash with
  | none => exact .pure _
  | some hash => exact .write (.wn hash none) trivial

theorem handleNewProxy_composed {request : Request} {remotePeerId : PeerId} :
    Composed (handleNewProxy request remotePeerId) := by
  refine .bind (.unwrap _) fun _ => .bind (.unwrap _) fun hash => .bind (.read _) fun _ => ?_
  refine .ite (.call _) (.bind (.write (.peer _ (some hash)) trivial) fun _ => ?_)
  exact .bind (.write (.wn hash (some _)) trivial) fun _ => .call _

theorem handleDecryptGossip_composed {request : Request} {remotePeerId : PeerId} :
    Composed (handleDecryptGossip node request remotePeerId) := by
  refine .bind (.unwrap _) fun _ => ?_
  have hreply (plainText : Bytes) : Composed (do
      if (Codec.decode plainText : Option Negotiate).isSome then
        Node.sendAck remotePeerId ⟨request.reqId, true, plainText⟩) :=
    .ite (.call _) (.pure _)
  cases Crypto.kind node.keypair with
  | ed25519 => exact .bind (.unwrap _) hreply
  | secp256k1 => exact .bind (.unwrap _) hreply
  | other => exact .bind .fail hreply

theorem handleNegPlainText_composed {request : Request} {remotePeerId : PeerId} :
    Composed (handleNegPlainText request remotePeerId) := by
  refine .bind (.unwrap _) fun _ => .bind (.read _) fun _ => .bind (.unwrap _) fun _ => ?_
  refine .bind (.unwrap _) fun _ => .bind (.call _) fun _ => .ite ?_ ?_
  · exact .bind (.unwrap _) fun _ => .call _
  · exact .bind (.unwrap _) fun _ => .call _

theorem handleMainNetPeers_composed {request : Request} {remotePeerId : PeerId} :
    Composed (handleMainNetPeers request remotePeerId) := by
  refine .bind (.unwrap _) fun _ => .bind (.call _) fun peers => ?_
  cases peers <;> exact .call _

theorem processProxyRequest_composed {r : NodeProxyRequest} :
    Composed (processProxyRequest node r) := by
  unfold processProxyRequest
  cases r.peerOperation with
  | some op =>
    cases op
    exact unregister_composed
  | none =>
    refine .bind (.unwrap _) fun request => .ite handleDecryptGossip_composed ?_
    refine .ite handleNegPlainText_composed (.ite handleMainNetPeers_composed ?_)
    refine .ite handleNewProxy_composed (.ite unregister_composed (.ite ?_ (.pure _)))
    exact .bind handleNewCircuit_composed fun _ => .call _

theorem buildAsAccess_composed {negotiate : Negotiate} {des : String} :
    Composed (buildAsAccess node negotiate des) := by
  refine .bind (.call _) fun nodeinfos => ?_
  cases nodeinfos with
  | none => exact .pure _
  | some nodeinfos =>
    refine .bind (.call _) fun _ => .bind tryPeers_composed fun found => ?_
    cases found with
    | none => exact handleCloseSession_composed
    | some relay =>
      refine .bind (externalSendNodeRequestAndWait_composed (.command _)) fun ack => ?_
      refine .ite handleCloseSession_composed (.bind getSession_composed fun session => ?_)
      cases session with
      | none => exact .pure _
      | some session => exact sendRelayTwoway_composed

theorem processPublishRequest_composed {data : Bytes} :
    Composed (processPublishRequest node data) := by
  refine .bind (.unwrap _) fun _ => .bind (.read _) fun _ => .ite ?_ (.pure _)
  refine .bind (.read _) fun _ => .bind (.unwrap _) fun _ => ?_
  refine .bind sendProxyRequestAndWait_composed fun _ => .ite (.pure _) ?_
  refine .bind (.unwrap _) fun _ => .bind newSessionToPeer_composed fun stream => ?_
  cases stream with
  | none => exact handleCloseSession_composed
  | some _ =>
    refine .ite (.bind getSession_composed fun session => ?_) buildAsAccess_composed
    cases session with
    | none => exact .pure _
    | some session => exact sendRelayTwoway_composed

theorem processCmdRequest_composed {r : NodeCmdRequest} : Composed (processCmdRequest r) := by
  refine .bind (.unwrap _) fun _ => .ite (.bind (.unwrap _) fun _ => ?_) (.pure _)
  refine .bind getSession_composed fun session => ?_
  cases session with
  | none => exact .bind handleCloseSession_composed fun _ => .call _
  | some session =>
    refine .ite (.bind (.call _) fun _ => sendRelayTwoway_composed) (.bind (.unwrap _) fun _ => ?_)
    refine .bind newSessionToPeer_composed fun stream => ?_
    cases stream with
    | none => exact .bind handleCloseSession_composed fun _ => .call _
    | some _ => exact .call _

/-- The tasks are put together like this. -/
theorem Task.body_composed (t : Task) : Composed (t.body node) := by
  cases t with
  | relayEventHandler => exact relayEventHandler_composed
  | writeRelayArc => exact .bind writeRelayArc_composed fun _ => .pure _
  | processHandshake => exact .bind processHandshake_composed fun _ => .pure _
  | processProxyRequest =>
    exact .bind (.call _) fun _ => .bind processProxyRequest_composed fun _ => .pure _
  | processCmdRequest =>
    exact .bind (.call _) fun _ => .bind processCmdRequest_composed fun _ => .pure _
  | processPublishRequest =>
    exact .bind (.call _) fun _ => .bind processPublishRequest_composed fun _ => .pure _
  | registerProxy => exact .bind registerProxy_composed fun _ => .pure _
  | getMainNets => exact .bind getMainNets_composed fun _ => .pure _
  | dial => exact .bind dial_composed fun _ => .pure _
  | disconnectCircuit => exact .bind handleCloseSession_composed fun _ => .pure _

/-- Every state change of every task is an update. -/
theorem Task.body_touches (t : Task) : Touches (t.body node) := t.body_composed.touches

end

end WhiteNoise
