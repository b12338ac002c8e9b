import WhiteNoise.Network.Told
import WhiteNoise.Process.Cost

/-! # How much a node sends

Each frame, message and call that comes to a node leads to a bounded number of
frames, messages and streams, whatever its tasks do in the meantime. Nothing
else leads to any.
-/

namespace WhiteNoise

open Wire Process

section Generic

variable [Codec] [Crypto]

/-! ## Prices -/

/-- What the task sends before it takes up something new. -/
def Task.price : Task → ℕ
  | .writeRelayArc _ _ | .registerProxy _ | .getMainNets _ _ => 1
  | .processHandshake _ _ _ | .disconnectCircuit _ => 2
  | .dial _ => 4
  | _ => 0

/-- What is sent costs one, and a task its price. A frame brings in three, a request 14, a command
six and a gossip message 16. -/
def prices : Prices Act Act.Res where
  cost
    | .spawn t => t.price
    | .newRelayStream _ | .write _ _ | .close _ | .send _ | .publish _ => 1
    | _ => 0
  gain
    | .read _, _ => 3
    | .nextProxyRequest, _ => 14
    | .nextCmdRequest, _ => 6
    | .nextGossip, _ => 16
    | _, _ => 0

/-- The program sends so much at most. -/
abbrev Sends {α : Type} (c : ℕ) (p : Async α) : Prop := p.Spends prices c

/-- The next turn of a loop, if there is one, is paid. -/
def duty : Option Task → ℕ
  | none => 0
  | some t => t.price

open Prog Costs

/-! ## Frames -/

section

variable {stream : WrappedStream} {relay : Relay} {sessionId : String}

theorem writeRelayArc_sends : Sends 1 (writeRelayArc stream relay) := by
  simp only [writeRelayArc, confusionRelay, Prog.call_bind, Prog.act_bind, Prog.pure_eq,
    Prog.ret_bind]
  exact .act (d := 1) (fun _ => .act (d := 0) (fun _ => .pure le_rfl) le_rfl) le_rfl

theorem writePayloadArc_sends {buf : Bytes} {len : ℕ} :
    Sends 1 (writePayloadArc stream buf len sessionId) :=
  .ite .fail (.seq writeRelayArc_sends (fun _ => .pure le_rfl) le_rfl)

theorem writeDisconnectArc_sends : Sends 1 (writeDisconnectArc stream sessionId) :=
  .seq writeRelayArc_sends (fun _ => .pure le_rfl) le_rfl

theorem writeRelayWakeArc_sends : Sends 1 (writeRelayWakeArc stream) :=
  .seq writeRelayArc_sends (fun _ => .pure le_rfl) le_rfl

theorem forwardRelay_sends {session : Session} {curStreamId : ℕ} :
    Sends 1 (forwardRelay session curStreamId relay) := by
  have hwrite (w : WrappedStream) : Sends 1 (do
      let _ ← writeRelayArc w relay
      pure ()) :=
    .seq writeRelayArc_sends (fun _ => .pure le_rfl) le_rfl
  refine .free (.unwrap _) fun early => .ite ?_ ?_
  · exact .free (.unwrap _) fun later => hwrite later
  · exact .free (.unwrap _) fun later => .ite (hwrite early) (.pure (Nat.zero_le _))

omit [Codec] in
theorem sendRelayTwoway_sends {session : Session} : Sends 2 (sendRelayTwoway session relay) := by
  have hspawn (w : WrappedStream) : Sends 1 (Async.spawn (.writeRelayArc w relay)) :=
    .call le_rfl
  unfold sendRelayTwoway
  cases session.pairStream.earlyStream <;> cases session.pairStream.laterStream
  · exact .pure (Nat.zero_le _)
  · exact (hspawn _).mono (by decide)
  · exact .seq (hspawn _) (fun _ => .pure (Nat.zero_le _)) (by decide)
  · exact .seq (hspawn _) (fun _ => hspawn _) (by decide)

end

/-! ## Messages -/

section

variable {node : Node} {peer : PeerId} {sessionId : String}

omit [Codec] in
theorem awaitAck_sends {receiver : ℕ} : Sends 0 (Async.awaitAck receiver) :=
  .free (.call le_rfl) fun _ => .unwrap _

omit [Codec] in
theorem sendAck_sends {ack : Ack} : Sends 1 (Node.sendAck peer ack) := .call le_rfl

omit [Codec] in
theorem externalSendNodeRequestAndWait_sends {key : String} {r : NodeRequest} :
    Sends 1 (Node.externalSendNodeRequestAndWait key r) :=
  .free (.update _ _) fun _ => .seq (c := 1) (.call le_rfl) (fun _ => awaitAck_sends) le_rfl

theorem sendProxyRequestAndWait_sends {request : Request} :
    Sends 1 (Node.sendProxyRequestAndWait peer request) := externalSendNodeRequestAndWait_sends

omit [Codec] in
theorem handleCloseSession_sends : Sends 2 (Node.handleCloseSession sessionId) := by
  have hrest (c : ℕ) : Sends c (do
      Async.removeCircuit sessionId
      Async.removeProbe sessionId) :=
    .free (.write _) fun _ => (Costs.write _).mono c.zero_le
  refine .free (.update _ _) fun session => ?_
  cases session with
  | none => exact hrest 2
  | some session =>
    dsimp only
    cases session.pairStream.earlyStream <;> cases session.pairStream.laterStream
    · exact hrest 2
    · exact .seq (c := 1) (.call le_rfl) (fun _ => hrest 1) (by decide)
    · exact .seq (c := 1) (.call le_rfl) (fun _ => hrest 1) (by decide)
    · refine .seq (c := 1) (.call le_rfl) (fun _ => ?_) (by decide)
      exact .seq (c := 1) (.call le_rfl) (fun _ => hrest 0) le_rfl

/-- A stream, two frames and a task that waits for frames. -/
theorem newSessionToPeer_sends {myRole otherRole : Int32} :
    Sends 3 (Node.newSessionToPeer peer sessionId myRole otherRole) := by
  refine .seq (c := 1) (.call le_rfl) (fun stream => ?_) (by decide)
  cases stream with
  | none => exact .pure (Nat.zero_le _)
  | some stream =>
    refine .seq writeRelayWakeArc_sends (fun _ => ?_) (by decide)
    refine .seq writeRelayArc_sends (fun key => ?_) le_rfl
    refine .free (.update _ _) fun _ => .free awaitAck_sends fun _ => .free (.call le_rfl) fun _ => ?_
    refine .free (.read _) fun found => .ite ?_ ?_
    · exact .free (.write _) fun _ => .pure le_rfl
    · refine .free (.read _) fun _ => .free (.unwrap _) fun _ => ?_
      exact .free (.write _) fun _ => .pure le_rfl

theorem newCircuit_sends {remoteWhitenoiseId localWhitenoiseId localPeerId : String} :
    Sends 1 (Node.newCircuit remoteWhitenoiseId localWhitenoiseId localPeerId sessionId peer) :=
  .free (.unwrap _) fun _ => .free (.unwrap _) fun _ =>
    .seq sendProxyRequestAndWait_sends (fun _ => .pure le_rfl) le_rfl

theorem dial_sends {remoteWhitenoiseId : String} : Sends 4 (Node.dial node remoteWhitenoiseId) := by
  refine .free (.unwrap _) fun _ => .free (.call le_rfl) fun _ => .free (.unwrap _) fun _ => ?_
  refine .free (.unwrap _) fun _ => .free (.write _) fun _ => .free (.unwrap _) fun _ => ?_
  refine .seq newSessionToPeer_sends (fun stream => ?_) (by decide)
  refine .free (.unwrap _) fun _ => .free (.update _ _) fun _ => .free (.write _) fun _ => ?_
  exact .seq newCircuit_sends (fun _ => .pure le_rfl) le_rfl

end

/-! ## The handler of a relay stream -/

section

variable {node : Node} {stream : WrappedStream} {relay : Relay} {sessionId : String}
  {circuitConn : CircuitConn} {noise : Crypto.Handshake}

theorem handleRelayProbe_sends : Sends 2 (handleRelayProbe sessionId stream relay) := by
  refine .free (.unwrap _) fun probe => .free (.read _) fun session => ?_
  cases session with
  | none => exact .pure (Nat.zero_le _)
  | some session =>
    refine .ite (.free (.read _) fun found => .ite ?_ ?_) (.ite ?_ (.pure (Nat.zero_le _)))
    · refine .free (.read _) fun _ => .free (.unwrap _) fun _ => .ite ?_ handleCloseSession_sends
      exact sendRelayTwoway_sends
    · exact (Costs.write _).mono (Nat.zero_le _)
    · exact forwardRelay_sends.mono (by decide)

theorem handleSuccess_sends : Sends 2 (handleSuccess stream relay) := by
  have hspawn (initiate : Bool) (sid : String) : Sends 2 (do
      let circuitConn ← Prog.unwrap (← Async.getCircuit sid)
      Async.spawn (.processHandshake circuitConn initiate sid)) :=
    .free (.read _) fun _ => .free (.unwrap _) fun _ => .call le_rfl
  unfold handleSuccess
  cases (Codec.decode relay.data : Option CircuitSuccess) with
  | none => exact .pure (Nat.zero_le _)
  | some relaySuccess =>
    refine .free (.read _) fun session => ?_
    cases session with
    | none => exact .pure (Nat.zero_le _)
    | some session =>
      refine .ite (hspawn true _) (.ite (hspawn false _) (.ite ?_ (.pure (Nat.zero_le _))))
      exact forwardRelay_sends.mono (by decide)

theorem handleRelayMsg_sends : Sends 1 (handleRelayMsg stream relay) := by
  unfold handleRelayMsg
  cases (Codec.decode relay.data : Option RelayMsg) with
  | none => exact .pure (Nat.zero_le _)
  | some relayMsg =>
    refine .free (.read _) fun session => ?_
    cases session with
    | none => exact .pure (Nat.zero_le _)
    | some session =>
      refine .ite ((Costs.write _).mono (Nat.zero_le _)) (.ite ?_ (.pure (Nat.zero_le _)))
      exact forwardRelay_sends

/-- A stream that is displaced gets a frame and is closed. -/
theorem handleSetSession_sends {relaySetSession : SetSessionIdMsg} {relayId : String} :
    Sends 3 (handleSetSession relaySetSession stream relayId) := by
  refine .free (.read _) fun session => ?_
  cases session with
  | none => exact .free (.write _) fun _ => sendAck_sends.mono (by decide)
  | some session =>
    refine .ite (.ite ?_ (handleCloseSession_sends.mono (by decide))) ?_
    · refine .free (.write _) fun _ => .free (.unwrap _) fun _ => ?_
      refine .seq writeDisconnectArc_sends (fun _ => ?_) (by decide)
      exact .seq (c := 1) (.call le_rfl) (fun _ => sendAck_sends) (by decide)
    · exact .free (.update _ _) fun _ => .ite (sendAck_sends.mono (by decide)) .fail

theorem relayEvent_sends {current : Option String} : Sends 3 (relayEvent stream current relay) := by
  have hdone (next : Option (Option String)) (c : ℕ) : Sends c (pure next : Async _) :=
    .pure c.zero_le
  refine .ite (hdone _ _) (.ite (hdone _ _) (.ite ?_ (.ite ?_ (.ite ?_ ?_))))
  · refine .free (.unwrap _) fun _ => .seq handleRelayProbe_sends (fun _ => ?_) (by decide)
    exact hdone _ _
  · cases (Codec.decode relay.data : Option Disconnect) with
    | none => exact hdone _ _
    | some _ => exact .seq handleCloseSession_sends (fun _ => hdone _ _) (by decide)
  · refine .free (.unwrap _) fun msg => .ite (.free (.write _) fun _ => ?_) ?_
    · exact .seq handleSetSession_sends (fun _ => hdone _ _) le_rfl
    · exact .seq handleSetSession_sends (fun _ => hdone _ _) le_rfl
  · refine .ite ?_ (.ite ?_ (hdone _ _))
    · exact .seq handleSuccess_sends (fun _ => hdone _ _) (by decide)
    · exact .seq handleRelayMsg_sends (fun _ => hdone _ _) (by decide)

/-- A turn is paid by the frame that it reads. -/
theorem relayEventHandler_costs {current : Option String} :
    (relayEventHandler stream current).Costs prices duty 0 := by
  have hnone (c : ℕ) : (pure none : Thread).Costs prices duty c := .pure c.zero_le
  rw [relayEventHandler_eq]
  refine .act (d := 0) (fun res => ?_) le_rfl
  change Costs prices duty 3 _
  cases res with
  | error =>
    refine .seq (c := 2) ?_ (fun _ => hnone _) (by decide)
    cases current with
    | none => exact .pure (Nat.zero_le _)
    | some sessionId =>
      exact .free (.read _) fun _ => .ite handleCloseSession_sends (.pure (Nat.zero_le _))
  | ok msg =>
    refine .free (.unwrap _) fun relay => .seq relayEvent_sends (fun next => ?_) le_rfl
    cases next with
    | none => exact hnone _
    | some current => exact .pure le_rfl

theorem writeShake_sends {payload : Bytes} :
    Sends 1 (writeShake circuitConn sessionId noise payload) :=
  .free (.call le_rfl) fun _ => .free (.unwrap _) fun _ =>
    .seq writePayloadArc_sends (fun _ => .pure le_rfl) le_rfl

omit [Codec] in
theorem readShake_sends : Sends 0 (readShake circuitConn noise) :=
  .free (.call le_rfl) fun _ => .unwrap _

omit [Codec] in
theorem establish_sends : Sends 0 (establish circuitConn sessionId noise) :=
  .free (.unwrap _) fun _ => .free (.update _ _) fun _ => .write _

theorem processHandshake_sends {initiate : Bool} :
    Sends 2 (processHandshake node circuitConn initiate sessionId) := by
  refine .free (.call le_rfl) fun _ => .free (.unwrap _) fun _ => .ite ?_ ?_
  · refine .free (.unwrap _) fun _ => .seq writeShake_sends (fun _ => ?_) (by decide)
    refine .free readShake_sends fun _ => .free (.unwrap _) fun _ => .free (.unwrap _) fun _ => ?_
    exact .free (.unwrap _) fun _ => .seq writeShake_sends (fun _ => establish_sends) le_rfl
  · refine .free (.unwrap _) fun _ => .free (.unwrap _) fun _ => .free readShake_sends fun _ => ?_
    refine .free (.unwrap _) fun _ => .seq writeShake_sends (fun _ => ?_) (by decide)
    refine .free readShake_sends fun _ => .free (.unwrap _) fun _ => .free (.unwrap _) fun _ => ?_
    exact establish_sends.mono (Nat.zero_le _)

end

/-! ## The request loops -/

section

variable {node : Node} {sessionId : String}

omit [Codec] in
theorem eligible_sends {invalid : List String} {excluded des id : String} :
    Sends 0 (eligible node invalid excluded des id) := by
  unfold eligible
  cases node.bootPeerId with
  | none =>
    refine .free (.call le_rfl) fun _ => .ite (.free (.read _) fun hash => ?_) (.pure le_rfl)
    cases hash with
    | none => exact .pure le_rfl
    | some hash => exact .free (.unwrap _) fun _ => .pure le_rfl
  | some p =>
    refine .free (.pure le_rfl) fun _ => .ite (.free (.read _) fun hash => ?_) (.pure le_rfl)
    cases hash with
    | none => exact .pure le_rfl
    | some hash => exact .free (.unwrap _) fun _ => .pure le_rfl

omit [Codec] in
theorem scanPeers_sends {nodeinfos : List NodeInfo} {invalid : List String}
    {excluded des : String} {j : ℕ} {index : UInt64} :
    Sends 0 (scanPeers node nodeinfos invalid excluded des j index) := by
  induction j generalizing index with
  | zero => exact .pure le_rfl
  | succ j ih => exact .free (.unwrap _) fun _ => .free eligible_sends fun _ => .ite (.pure le_rfl) ih

theorem tryPeers_sends {nodeinfos : List NodeInfo} {invalid : List String}
    {excluded des : String} {myRole otherRole : Int32} {i : ℕ} {peer : PeerId} :
    Sends (3 * i)
      (tryPeers node nodeinfos excluded des sessionId myRole otherRole i invalid peer) := by
  induction i generalizing invalid peer with
  | zero => exact .pure le_rfl
  | succ i ih =>
    refine .free (.call le_rfl) fun index => .free scanPeers_sends fun found => ?_
    cases found with
    | none =>
      refine .free (.pure le_rfl) fun _ => .seq newSessionToPeer_sends (fun stream => ?_) (by omega)
      cases stream with
      | none => exact ih
      | some _ => exact .pure (Nat.zero_le _)
    | some id =>
      refine .free (.unwrap _) fun _ => .seq newSessionToPeer_sends (fun stream => ?_) (by omega)
      cases stream with
      | none => exact ih
      | some _ => exact .pure (Nat.zero_le _)

theorem inviteCallee_sends {newCircuit : NewCircuit} {remotePeerId join : PeerId} :
    Sends 4 (inviteCallee node newCircuit remotePeerId join) := by
  refine .seq sendProxyRequestAndWait_sends (fun _ => ?_) (by decide)
  refine .seq (c := 1) (.call le_rfl) (fun _ => ?_) (by decide)
  refine .free (.unwrap _) fun _ => .free (.read _) fun session => ?_
  cases session with
  | none => exact .pure (Nat.zero_le _)
  | some session => exact .seq sendRelayTwoway_sends (fun _ => .pure le_rfl) le_rfl

/-- Three peers are tried, and what was opened is closed or used. -/
theorem buildAsEntry_sends {newCircuit : NewCircuit} {remotePeerId : PeerId} :
    Sends 13 (buildAsEntry node newCircuit remotePeerId) := by
  refine .free (.call le_rfl) fun nodeinfos => ?_
  cases nodeinfos with
  | none => exact .pure (Nat.zero_le _)
  | some nodeinfos =>
    refine .free (.call le_rfl) fun _ => .seq tryPeers_sends (fun found => ?_) (by decide)
    cases found with
    | none => exact .seq handleCloseSession_sends (fun _ => .pure (Nat.zero_le _)) (by decide)
    | some _ => exact inviteCallee_sends

theorem buildAsEntryAndAccess_sends {newCircuit : NewCircuit} {toClientInfo : ClientInfo} :
    Sends 5 (buildAsEntryAndAccess newCircuit toClientInfo) := by
  refine .seq newSessionToPeer_sends (fun stream => ?_) (by decide)
  cases stream with
  | none => exact .pure (Nat.zero_le _)
  | some _ =>
    refine .free (.read _) fun session => ?_
    cases session with
    | none => exact .pure (Nat.zero_le _)
    | some session => exact .seq sendRelayTwoway_sends (fun _ => .pure le_rfl) le_rfl

theorem handleNewCircuit_sends {request : Request} {remotePeerId : PeerId} :
    Sends 13 (handleNewCircuit node request remotePeerId) := by
  unfold handleNewCircuit
  cases (Codec.decode request.data : Option NewCircuit) with
  | none => exact Costs.pure (Nat.zero_le _)
  | some newCircuit =>
    refine .free (.read _) fun fromClientInfo => .ite (Costs.pure (Nat.zero_le _)) ?_
    refine .free (.read _) fun session => ?_
    cases session with
    | none => exact Costs.pure (Nat.zero_le _)
    | some session =>
      refine .ite (Costs.pure (Nat.zero_le _)) (.free (.read _) fun toClientInfo => ?_)
      cases toClientInfo with
      | none => exact buildAsEntry_sends
      | some _ => exact buildAsEntryAndAccess_sends.mono (by decide)

omit [Codec] in
theorem unregister_sends {peerId : PeerId} : Sends 0 (unregister peerId) := by
  refine .free (.update _ _) fun hash => ?_
  cases hash with
  | none => exact .pure le_rfl
  | some hash => exact .write _

theorem handleNewProxy_sends {request : Request} {remotePeerId : PeerId} :
    Sends 1 (handleNewProxy request remotePeerId) := by
  refine .free (.unwrap _) fun _ => .free (.unwrap _) fun _ => .free (.read _) fun _ => ?_
  exact .ite sendAck_sends (.free (.write _) fun _ => .free (.write _) fun _ => sendAck_sends)

theorem handleDecryptGossip_sends {request : Request} {remotePeerId : PeerId} :
    Sends 1 (handleDecryptGossip node request remotePeerId) := by
  refine .free (.unwrap _) fun _ => ?_
  have hreply (plainText : Bytes) : Sends 1 (do
      if (Codec.decode plainText : Option Negotiate).isSome then
        Node.sendAck remotePeerId ⟨request.reqId, true, plainText⟩) :=
    .ite sendAck_sends (.pure (Nat.zero_le _))
  cases Crypto.kind node.keypair with
  | ed25519 => exact .free (.unwrap _) hreply
  | secp256k1 => exact .free (.unwrap _) hreply
  | other => exact .free .fail hreply

theorem handleNegPlainText_sends {request : Request} {remotePeerId : PeerId} :
    Sends 1 (handleNegPlainText request remotePeerId) := by
  refine .free (.unwrap _) fun _ => .free (.read _) fun _ => .free (.unwrap _) fun _ => ?_
  refine .free (.unwrap _) fun _ => .free (.call le_rfl) fun _ => .ite ?_ ?_
  · exact .free (.unwrap _) fun _ => sendAck_sends
  · exact .free (.unwrap _) fun _ => sendAck_sends

theorem handleMainNetPeers_sends {request : Request} {remotePeerId : PeerId} :
    Sends 1 (handleMainNetPeers request remotePeerId) := by
  refine .free (.unwrap _) fun _ => .free (.call le_rfl) fun peers => ?_
  cases peers <;> exact sendAck_sends

theorem processProxyRequest_sends {r : NodeProxyRequest} :
    Sends 14 (processProxyRequest node r) := by
  unfold processProxyRequest
  cases r.peerOperation with
  | some op =>
    cases op
    exact unregister_sends.mono (Nat.zero_le _)
  | none =>
    refine .free (.unwrap _) fun request => .ite (handleDecryptGossip_sends.mono (by decide)) ?_
    refine .ite (handleNegPlainText_sends.mono (by decide)) ?_
    refine .ite (handleMainNetPeers_sends.mono (by decide)) ?_
    refine .ite (handleNewProxy_sends.mono (by decide)) ?_
    refine .ite (unregister_sends.mono (Nat.zero_le _)) (.ite ?_ (.pure (Nat.zero_le _)))
    exact .seq handleNewCircuit_sends (fun _ => sendAck_sends) (by decide)

theorem buildAsAccess_sends {negotiate : Negotiate} {des : String} :
    Sends 12 (buildAsAccess node negotiate des) := by
  refine .free (.call le_rfl) fun nodeinfos => ?_
  cases nodeinfos with
  | none => exact .pure (Nat.zero_le _)
  | some nodeinfos =>
    refine .free (.call le_rfl) fun _ => .seq tryPeers_sends (fun found => ?_) (by decide)
    cases found with
    | none => exact handleCloseSession_sends.mono (by decide)
    | some relay =>
      refine .seq externalSendNodeRequestAndWait_sends (fun ack => ?_) (by decide)
      refine .ite handleCloseSession_sends (.free (.read _) fun session => ?_)
      cases session with
      | none => exact .pure (Nat.zero_le _)
      | some session => exact sendRelayTwoway_sends

theorem processPublishRequest_sends {data : Bytes} :
    Sends 16 (processPublishRequest node data) := by
  refine .free (.unwrap _) fun _ => .free (.read _) fun _ => .ite ?_ (.pure (Nat.zero_le _))
  refine .free (.read _) fun _ => .free (.unwrap _) fun _ => ?_
  refine .seq sendProxyRequestAndWait_sends (fun _ => .ite (.pure (Nat.zero_le _)) ?_) (by decide)
  refine .free (.unwrap _) fun negotiate => ?_
  refine .seq newSessionToPeer_sends (fun stream => ?_) (by decide)
  cases stream with
  | none => exact handleCloseSession_sends.mono (by decide)
  | some _ =>
    refine .ite (.free (.read _) fun session => ?_) buildAsAccess_sends
    cases session with
    | none => exact .pure (Nat.zero_le _)
    | some session => exact sendRelayTwoway_sends.mono (by decide)

theorem processCmdRequest_sends {r : NodeCmdRequest} : Sends 6 (processCmdRequest r) := by
  refine .free (.unwrap _) fun command => .ite (.free (.unwrap _) fun expend => ?_)
    (.pure (Nat.zero_le _))
  refine .free (.read _) fun session => ?_
  cases session with
  | none =>
    refine .seq handleCloseSession_sends (fun _ => sendAck_sends.mono (by decide)) (by decide)
  | some session =>
    refine .ite (.seq sendAck_sends (fun _ => ?_) (by decide)) (.free (.unwrap _) fun _ => ?_)
    · exact sendRelayTwoway_sends.mono (by decide)
    · refine .seq newSessionToPeer_sends (fun stream => ?_) (by decide)
      cases stream with
      | none => exact .seq handleCloseSession_sends (fun _ => sendAck_sends) (by decide)
      | some _ => exact sendAck_sends.mono (by decide)

/-- A task sends what it costs, and a loop what it takes up brings in. -/
theorem Task.body_costs (t : Task) : (t.body node).Costs prices duty t.price := by
  have hnone (c : ℕ) : (pure none : Thread).Costs prices duty c := .pure c.zero_le
  cases t with
  | relayEventHandler => exact relayEventHandler_costs
  | writeRelayArc => exact .seq writeRelayArc_sends (fun _ => hnone _) le_rfl
  | processHandshake => exact .seq processHandshake_sends (fun _ => hnone _) le_rfl
  | processProxyRequest =>
    refine .learn (d := 0) (fun r => ?_) le_rfl
    exact .seq (e := 14) processProxyRequest_sends (fun _ => .pure (Nat.zero_le _)) le_rfl
  | processCmdRequest =>
    refine .learn (d := 0) (fun r => ?_) le_rfl
    exact .seq (e := 6) processCmdRequest_sends (fun _ => .pure (Nat.zero_le _)) le_rfl
  | processPublishRequest =>
    refine .learn (d := 0) (fun r => ?_) le_rfl
    exact .seq (e := 16) processPublishRequest_sends (fun _ => .pure (Nat.zero_le _)) le_rfl
  | registerProxy =>
    refine .seq (c := 1) (.free (.unwrap _) fun _ => ?_) (fun _ => hnone _) le_rfl
    exact .seq sendProxyRequestAndWait_sends (fun _ => .pure le_rfl) le_rfl
  | getMainNets =>
    refine .seq (c := 1) (.seq sendProxyRequestAndWait_sends (fun _ => ?_) le_rfl)
      (fun _ => hnone _) le_rfl
    exact .free (.unwrap _) fun _ => .pure le_rfl
  | dial => exact .seq dial_sends (fun _ => hnone _) le_rfl
  | disconnectCircuit => exact .seq handleCloseSession_sends (fun _ => hnone _) le_rfl

end

/-! ## What is there to take up -/

/-- What the queues of the node bring in. The list has the stream of each frame that is not read
yet. -/
def Stocked (s : Shared) (v : ℕ) : Prop :=
  ∃ q : List ℕ, (∀ i, q.count i = (s.inbox i).length) ∧
    3 * q.length + 14 * s.proxyRequests.length + 6 * s.cmdRequests.length + 16 * s.gossip.length = v

section

variable {s s' : Shared} {v : ℕ} {a : Act} {c : Choice}

omit [Codec] in
theorem Stocked.same (h : Stocked s v) (hinbox : s'.inbox = s.inbox)
    (hproxy : s'.proxyRequests = s.proxyRequests) (hcmd : s'.cmdRequests = s.cmdRequests)
    (hgossip : s'.gossip = s.gossip) : Stocked s' v := by
  obtain ⟨q, hq, hv⟩ := h
  exact ⟨q, by rwa [hinbox], by rwa [hproxy, hcmd, hgossip]⟩

theorem Stocked.small (h : Stocked s v) {f : Shared → Shared} (hf : Small f) : Stocked (f s) v := by
  rcases hf with ⟨u, rfl⟩ | htransport
  · cases u with
    | addCircuit sid stream | data sid b =>
      simp only [Update.apply]
      split <;> exact h.same rfl rfl rfl rfl
    | _ => exact h.same rfl rfl rfl rfl
  · obtain ⟨transports, hs⟩ := htransport s
    rw [hs]
    exact h.same rfl rfl rfl rfl

/-- The request takes nothing out of a queue. -/
def Act.Leaves : Act → Prop
  | .read _ | .nextProxyRequest | .nextCmdRequest | .nextGossip => False
  | _ => True

omit [Codec] in
theorem reply_leaves_queues {x : Reply Shared Task Output a.Res} (ha : a.Leaves)
    (hx : Shared.reply a c s = some x) :
    x.state.inbox = s.inbox ∧ x.state.proxyRequests = s.proxyRequests ∧
      x.state.cmdRequests = s.cmdRequests ∧ x.state.gossip = s.gossip := by
  unfold Shared.reply at hx
  split at hx
  all_goals first
    | exact ha.elim
    | (obtain ⟨_, _, -, rfl⟩ := Shared.dequeue_eq_some hx
       exact ⟨rfl, rfl, rfl, rfl⟩)
    | (cases hx <;> exact ⟨rfl, rfl, rfl, rfl⟩)
    | (split at hx <;> cases hx <;> exact ⟨rfl, rfl, rfl, rfl⟩)

omit [Codec] in
/-- What is taken out of a queue brings in what it was there for. -/
theorem Stocked.reply (h : Stocked s v) {x : Reply Shared Task Output a.Res}
    (hx : Shared.reply a c s = some x) :
    ∃ v', Stocked x.state v' ∧ v' + prices.gain a x.answer = v := by
  have hleaves (ha : a.Leaves) (hgain : prices.gain a x.answer = 0) :
      ∃ v', Stocked x.state v' ∧ v' + prices.gain a x.answer = v := by
    obtain ⟨hinbox, hproxy, hcmd, hgossip⟩ := reply_leaves_queues ha hx
    exact ⟨v, h.same hinbox hproxy hcmd hgossip, by rw [hgain]; rfl⟩
  cases a with
  | read w =>
    obtain ⟨q, hq, rfl⟩ := h
    obtain ⟨res, rest, hw, rfl⟩ := Shared.dequeue_eq_some hx
    have hcount : q.count w.streamId = true.toNat + rest.length := by
      rw [hq, hw, List.length_cons, Nat.add_comm]
      rfl
    obtain ⟨q', hq', hlen⟩ := exists_take hcount
    refine ⟨_, ⟨q', fun i => ?_, rfl⟩, ?_⟩
    · dsimp only
      rw [hq', Function.update_apply]
      split
      · rfl
      · exact hq i
    · simp only [Bool.toNat_true] at hlen
      simp only [prices]
      omega
  | nextProxyRequest | nextCmdRequest | nextGossip =>
    obtain ⟨q, hq, rfl⟩ := h
    obtain ⟨r, rest, hr, rfl⟩ := Shared.dequeue_eq_some hx
    refine ⟨_, ⟨q, hq, rfl⟩, ?_⟩
    rw [hr]
    simp only [prices, List.length_cons]
    omega
  | _ => exact hleaves trivial rfl

omit [Codec] in
/-- A request costs what it sends and what it starts. -/
theorem reply_covered {x : Reply Shared Task Output a.Res} (hx : Shared.reply a c s = some x) :
    x.outputs.length + (x.spawned.map Task.price).sum ≤ prices.cost a := by
  have hspawned : (x.spawned.map Task.price).sum = 0 ∨ ∃ t, a = .spawn t ∧ x.spawned = [t] := by
    rcases a.plain_or with hplain | ⟨t, rfl⟩ | ⟨w, rfl⟩
    · rw [(reply_plain hplain hx).2]
      exact Or.inl rfl
    · cases hx
      exact Or.inr ⟨t, rfl, rfl⟩
    · obtain ⟨_, _, -, rfl⟩ := Shared.dequeue_eq_some hx
      exact Or.inl rfl
  rw [Shared.reply_outputs hx]
  rcases hspawned with hnone | ⟨t, rfl, ht⟩
  · rw [hnone]
    cases a with
    | newRelayStream peer => cases x.answer <;> simp [Act.outputs, prices]
    | _ => simp [Act.outputs, prices]
  · rw [ht]
    simp [Act.outputs, prices]

end

/-! ## All runs -/

section

variable {node : Node} {p p' : NodePool} {e : Event} {n : ℕ} {o os : List Output}

/-- What comes in with the event. -/
def Event.worth : Event → ℕ
  | .frame _ _ => 3
  | .proxyRequest _ => 14
  | .cmdRequest _ => 6
  | .gossip _ => 16
  | .call t => t.price
  | _ => 0

def Use.worth : Use → ℕ
  | .sendMessage _ _ => 1
  | .read _ _ => 0

/-- The thread can pay for what it sends, and does nothing to the queues. -/
abbrev Paid (m : ℕ) (t : Thread) : Prop := t.Pays (prices.tariff Small) (fun m o => duty o ≤ m) m

theorem paid_of_costs {t : Thread} {c m : ℕ} (h : t.Costs prices duty c) (ht : Modest t)
    (hm : c ≤ m) : Paid m t :=
  ((h 0).within ht).mono (by omega) fun _ _ _ hk ha => Nat.le_trans ha hk

theorem body_paid {t : Task} {m : ℕ} (hm : t.price ≤ m) : Paid m (t.body node) :=
  paid_of_costs t.body_costs t.body_small hm

theorem Use.body_paid (u : Use) : Paid u.worth u.body := by
  have hnone (c : ℕ) : (pure none : Thread).Costs prices duty c := .pure c.zero_le
  refine paid_of_costs (c := u.worth) ?_ u.body_small le_rfl
  cases u with
  | sendMessage sid message =>
    refine .seq (c := 1) (.free (.read _) fun _ => .free (.unwrap _) fun conn => ?_)
      (fun _ => hnone _) le_rfl
    refine .ite (.pure (Nat.zero_le _)) ?_
    unfold CircuitConn.write
    cases conn.transportState with
    | none => exact .pure (Nat.zero_le _)
    | some ref =>
      refine .free (.free (.update _ _) fun _ => .free (.unwrap _) fun _ => .pure le_rfl) fun _ => ?_
      exact writePayloadArc_sends
  | read conn buf =>
    refine .free ?_ fun _ => hnone _
    unfold CircuitConn.read
    cases conn.transportState with
    | none => exact .pure le_rfl
    | some ref =>
      refine .free (.call le_rfl) fun _ => .free (.unwrap _) fun _ => .free ?_ fun _ => .unwrap _
      exact .free (.update _ _) fun _ => .free (.unwrap _) fun _ => .pure le_rfl

/-- What is in the queues and what the threads can still send comes to `n`. -/
def Solvent (p : NodePool) (n : ℕ) : Prop :=
  ∃ v b, Stocked p.state v ∧ p.Affords (prices.tariff Small) (fun m o => duty o ≤ m) b ∧ v + b = n

theorem affords_tasks (ts : List Task) :
    List.Forall₂ Paid (ts.map Task.price) (ts.map (Task.body node)) := by
  induction ts with
  | nil => exact .nil
  | cons t ts ih => exact .cons (body_paid le_rfl) ih

theorem Solvent.thread {i : ℕ} {c : Choice} (h : Solvent p n)
    (hs : nodeStep node p (.thread i c) = some (p', o)) :
    ∃ n', Solvent p' n' ∧ n' + o.length ≤ n := by
  obtain ⟨v, b, hv, hb, rfl⟩ := h
  obtain ⟨b', hb', hcase⟩ := hb.step (nodeSemantics node) (fun _ _ hm => body_paid hm)
    (fun a cost x hcost hx => ⟨trivial, x.spawned.map Task.price, affords_tasks _,
      (reply_covered hx).trans hcost⟩) hs
  rcases hcase with ⟨hstate, hle⟩ | ⟨a, x, hx, hstate, hle⟩
  · refine ⟨v + b', ⟨v, b', ?_, hb', rfl⟩, by omega⟩
    rcases hstate with hstate | ⟨f, cost, ⟨-, hf⟩, hstate⟩
    · rwa [hstate]
    · rw [hstate]
      exact hv.small hf
  · obtain ⟨v', hv', hgain⟩ := hv.reply hx
    have hle' : b' + o.length ≤ b + prices.gain a x.answer := hle
    exact ⟨v' + b', ⟨v', b', hstate ▸ hv', hb', rfl⟩, by omega⟩

/-- In each step the node sends what it has, and gets what the event brings in. -/
theorem Solvent.step (h : Solvent p n) (hs : nodeStep node p e = some (p', o)) :
    ∃ n', Solvent p' n' ∧ n' + o.length ≤ n + e.worth := by
  cases e with
  | thread i c => exact h.thread hs
  | ack peer ack =>
    obtain ⟨v, b, hv, hb, rfl⟩ := h
    cases hs
    refine ⟨v + b, ⟨v, b, hv.same ?_ ?_ ?_ ?_, hb, rfl⟩, le_rfl⟩ <;>
    · simp only [Shared.injectAck]
      split <;> rfl
  | proxyRequest r | cmdRequest r | gossip r =>
    obtain ⟨_, b, ⟨q, hq, rfl⟩, hb, rfl⟩ := h
    cases hs
    refine ⟨_, ⟨_, b, ⟨q, hq, rfl⟩, hb, rfl⟩, ?_⟩
    simp only [Event.worth, List.length_append, List.length_cons, List.length_nil]
    omega
  | frame id res =>
    obtain ⟨_, b, ⟨q, hq, rfl⟩, hb, rfl⟩ := h
    cases hs
    refine ⟨_, ⟨_, b, ⟨id :: q, fun i => ?_, rfl⟩, hb, rfl⟩, ?_⟩
    · simp only [Shared.pushFrame, Function.update_apply, List.count_cons, hq, beq_iff_eq]
      by_cases hi : id = i
      · subst hi
        simp
      · rw [if_neg hi, if_neg (Ne.symm hi), Nat.add_zero]
    · simp only [Event.worth, Shared.pushFrame, List.length_cons, List.length_nil]
      omega
  | inbound w =>
    obtain ⟨v, b, hv, hb, rfl⟩ := h
    simp only [nodeStep] at hs
    split at hs
    · cases hs
    · cases hs
      exact ⟨_, ⟨v, _, hv.same rfl rfl rfl rfl,
        hb.append (affords_tasks [.relayEventHandler w none]) rfl, rfl⟩, le_rfl⟩
  | call t =>
    obtain ⟨v, b, hv, hb, rfl⟩ := h
    cases hs
    refine ⟨_, ⟨v, _, hv, hb.append (affords_tasks [t]) rfl, rfl⟩, ?_⟩
    simp only [Event.worth, List.map_cons, List.map_nil, List.sum_cons, List.sum_nil,
      List.length_nil]
    omega

theorem Solvent.use (h : Solvent p n) (u : Use) : Solvent (useCircuit p u) (n + u.worth) := by
  obtain ⟨v, b, hv, hb, rfl⟩ := h
  exact ⟨v, b + u.worth, hv, hb.append (.cons u.body_paid .nil) rfl, by omega⟩

theorem start_solvent (ts : List Task) :
    Solvent (Acks.start node ts) (ts.map Task.price).sum :=
  ⟨0, _, ⟨[], fun _ => rfl, rfl⟩, ⟨_, affords_tasks ts, rfl⟩, Nat.zero_add _⟩

/-- What a node has sent is paid for by what has come to it. -/
theorem traffic_bounded {ts : List Task} {es : List (Event ⊕ Use)}
    (h : run (clientStep node) (Acks.start node ts) es = some (p, os)) :
    os.length ≤ (ts.map Task.price).sum + (es.map (Sum.elim Event.worth Use.worth)).sum := by
  have hall : ∃ n, Solvent p n ∧ n + os.length ≤
      (ts.map Task.price).sum + (es.map (Sum.elim Event.worth Use.worth)).sum := by
    refine run_induction (P := fun es p os => ∃ n, Solvent p n ∧ n + os.length ≤
      (ts.map Task.price).sum + (es.map (Sum.elim Event.worth Use.worth)).sum)
      ⟨_, start_solvent ts, le_rfl⟩ ?_ h
    rintro es p os e p' o ⟨n, hn, hle⟩ hs
    simp only [List.map_append, List.sum_append, List.length_append, List.map_cons, List.map_nil,
      List.sum_cons, List.sum_nil]
    cases e with
    | inl e =>
      obtain ⟨n', hn', hle'⟩ := hn.step hs
      exact ⟨n', hn', by simp only [Sum.elim_inl]; omega⟩
    | inr u =>
      cases hs
      exact ⟨n + u.worth, hn.use u, by simp only [Sum.elim_inr, List.length_nil]; omega⟩
  obtain ⟨n, -, hle⟩ := hall
  omega

end

end Generic

theorem traffic_bounded_dialed : ∃ p os,
    run (clientStep Traffic.Sample.node) (Acks.start Traffic.Sample.node []) Traffic.Sample.dials =
      some (p, os) ∧ os.length ≤ 5 := by
  obtain ⟨p, os, hr, -⟩ := exists_run (clientStep Traffic.Sample.node)
    (Acks.start Traffic.Sample.node []) Traffic.Sample.dials (fun _ => true) (by decide +kernel)
  exact ⟨p, os, hr, traffic_bounded hr⟩

end WhiteNoise
