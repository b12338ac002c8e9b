import WhiteNoise.Acks.Bus
import WhiteNoise.Network.Connection
import WhiteNoise.Network.Turns
import WhiteNoise.Process.Conduct

/-! # What a node sends

Each frame that a task writes goes over a stream of the node and carries the digest
of what it was before, and each message that it hands to the event loop is there and
named by the digest of its contents. A task acknowledges what the node has been asked
for. It writes data only to the streams of their circuit, and makes up none unless the
circuit ends at its node.
-/

namespace WhiteNoise

open Wire Process

section Generic

variable [Codec] [Crypto]

/-! ## What a node knows -/

/-- What can have come to a node: requests, commands and frames of its peers, streams, and the wish
of the application to dial. It also knows the frames that it has written. -/
inductive Known where
  | request (peer : PeerId) (request : Request)
  | command (peer : PeerId) (command : Command)
  | frame (stream : WrappedStream) (relay : Relay)
  | written (stream : WrappedStream) (relay : Relay)
  | stream (stream : WrappedStream)
  | dials (remoteWhitenoiseId : String)

/-- The peer wants an answer under the identifier. -/
def Asks (K : Set Known) (peer : PeerId) (id : String) : Prop :=
  (∃ request, .request peer request ∈ K ∧ request.reqId = id) ∨
  (∃ command, .command peer command ∈ K ∧ command.commandId = id) ∨
  ∃ stream relay, .frame stream relay ∈ K ∧ stream.remotePeerId = peer ∧ relay.id = id

/-- The roles at the two ends of a circuit. -/
def Terminal (role : Int32) : Prop :=
  role = SessionRole.callerRole.toI32 ∨ role = SessionRole.answerRole.toI32

instance (role : Int32) : Decidable (Terminal role) := inferInstanceAs (Decidable (_ ∨ _))

/-- The circuit can end at the node: the application has dialed it, or a peer has said so. -/
def Ends (K : Set Known) (sessionId : String) : Prop :=
  (∃ remoteId localId now, .dials remoteId ∈ K ∧
    sessionId = Node.generateSessionId remoteId localId now) ∨
  ∃ stream relay, ∃ msg : SetSessionIdMsg, .frame stream relay ∈ K ∧
    relay.type = Relaytype.setSessionId.toI32 ∧ Codec.decode relay.data = some msg ∧
    msg.sessionId = sessionId ∧ Terminal msg.role

/-- The circuit goes over the stream of the node: one of the two ends of the stream has said so. -/
def Joined (K : Set Known) (stream : WrappedStream) (sessionId : String) : Prop :=
  .stream stream ∈ K ∧ ∃ relay, ∃ msg : SetSessionIdMsg,
    (.frame stream relay ∈ K ∨ .written stream relay ∈ K) ∧
    relay.type = Relaytype.setSessionId.toI32 ∧ Codec.decode relay.data = some msg ∧
    msg.sessionId = sessionId

/-- The data have come in over a stream that the circuit goes over, or the circuit ends here. -/
def Relayed (K : Set Known) (sessionId : String) (data : Bytes) : Prop :=
  (∃ stream joined relay, .frame stream relay ∈ K ∧ relay.type = Relaytype.data.toI32 ∧
    relay.data = data ∧ joined.streamId = stream.streamId ∧ Joined K joined sessionId) ∨
  (∃ payload, data = Codec.encode ({ sessionId, data := payload } : RelayMsg)) ∧ Ends K sessionId

/-- The circuit goes over the streams of the session, and the node knows whether it is an end. -/
structure Session.Held (K : Set Known) (sessionId : String) (session : Session) : Prop where
  early : ∀ w, session.pairStream.earlyStream = some w → Joined K w sessionId
  later : ∀ w, session.pairStream.laterStream = some w → Joined K w sessionId
  role : Terminal session.sessionRole → Ends K sessionId

/-- The circuit goes over its stream. The node is an end once the handshake is finished. -/
structure CircuitConn.Held (K : Set Known) (sessionId : String) (conn : CircuitConn) : Prop where
  stream : Joined K conn.outStream sessionId
  id : conn.id = sessionId
  ends : conn.transportState.isSome → Ends K sessionId

structure Shared.Held (K : Set Known) (s : Shared) : Prop where
  sessions : ∀ sid session, s.sessionMap sid = some session → session.Held K sid
  circuits : ∀ sid conn, s.circuitMap sid = some conn → conn.Held K sid

/-! ## What it may do -/

/-- The frame has the digest of what it was before as its identifier. -/
def Stamped (data : Bytes) (relay : Relay) : Prop :=
  data = Codec.encode { relay with id := fromBytesGetId (Codec.encode relay) }

/-- The message is there, and it is named by the digest of its contents. -/
def NodeRequest.Complete : NodeRequest → Prop
  | .proxyRequest r => r.peerOperation = none ∧
    ∃ q : Request, r.proxyRequest = some q ∧ q.reqId = fromRequestGetId { q with reqId := "" }
  | .cmdRequest r => ∃ c : Command, r.cmdRequest = some c ∧
    c.commandId = fromBytesGetId (Codec.encode { c with commandId := "" })
  | .ackRequest r => r.ackRequest.isSome

/-- If it is an acknowledgement, the peer has asked for it. -/
def NodeRequest.Owed (K : Set Known) : NodeRequest → Prop
  | .ackRequest r => ∀ ack, r.ackRequest = some ack → Asks K r.remotePeerId ack.commandId
  | _ => True

/-- Data go over a stream of their circuit. They are passed on, or the circuit ends here. -/
def Sendable (K : Set Known) (stream : WrappedStream) (relay : Relay) : Prop :=
  relay.type = Relaytype.data.toI32 → ∃ msg : RelayMsg, Codec.decode relay.data = some msg ∧
    Joined K stream msg.sessionId ∧ Relayed K msg.sessionId relay.data

/-- The task has what it works on. -/
def Task.Ready (K : Set Known) : Task → Prop
  | .relayEventHandler stream sessionId =>
    .stream stream ∈ K ∧ ∀ sid, sessionId = some sid → Joined K stream sid
  | .writeRelayArc stream relay => .stream stream ∈ K ∧ Sendable K stream relay
  | .processHandshake circuitConn _ sessionId => circuitConn.Held K sessionId ∧ Ends K sessionId
  | .dial remoteWhitenoiseId => .dials remoteWhitenoiseId ∈ K
  | _ => True

/-- The tasks that the application can start, and the loops. -/
def Task.Called : Task → Bool
  | .relayEventHandler _ _ | .writeRelayArc _ _ | .processHandshake _ _ _ => false
  | _ => true

theorem called_ready_univ {t : Task} (ht : t.Called) : t.Ready Set.univ := by
  cases t with
  | relayEventHandler | writeRelayArc | processHandshake => cases ht
  | _ => trivial

def Act.Allowed (K : Set Known) : Act → Prop
  | .spawn t => t.Ready K
  | .read w => .stream w ∈ K
  | .write w data => .stream w ∈ K ∧ ∃ relay, Stamped data relay ∧ Sendable K w relay
  | .close w => .stream w ∈ K
  | .send r => r.Complete ∧ r.Owed K
  | _ => True

/-- What goes out is as it may be. -/
def Output.Proper (K : Set Known) : Output → Prop
  | .write w data => .stream w ∈ K ∧ ∃ relay, Stamped data relay ∧ Sendable K w relay
  | .close w => .stream w ∈ K
  | .request r => r.Complete ∧ r.Owed K
  | _ => True

/-- What comes in is known from then on, and so is what has been written. -/
def Act.learned : (a : Act) → a.Res → Set Known
  | .newRelayStream _, some w => {.stream w}
  | .write w data, _ =>
    {k | ∃ relay : Relay, Codec.decode data = some relay ∧ k = .written w relay}
  | .read w, .ok msg => {k | ∃ relay : Relay, Codec.decode msg = some relay ∧ k = .frame w relay}
  | .nextProxyRequest, r =>
    {k | ∃ q : Request, r.proxyRequest = some q ∧ k = .request r.remotePeerId q}
  | .nextCmdRequest, r =>
    {k | ∃ c : Command, r.cmdRequest = some c ∧ k = .command r.remotePeerId c}
  | _, _ => ∅

/-! ## Who knows more may do more -/

section

variable {K L : Set Known} (hKL : K ⊆ L)

include hKL

omit [Codec] [Crypto] in
theorem Asks.mono {peer : PeerId} {id : String} (h : Asks K peer id) : Asks L peer id := by
  rcases h with ⟨q, hq, hid⟩ | ⟨c, hc, hid⟩ | ⟨w, relay, hf, hpeer, hid⟩
  · exact Or.inl ⟨q, hKL hq, hid⟩
  · exact Or.inr (Or.inl ⟨c, hKL hc, hid⟩)
  · exact Or.inr (Or.inr ⟨w, relay, hKL hf, hpeer, hid⟩)

theorem Ends.mono {sid : String} (h : Ends K sid) : Ends L sid := by
  rcases h with ⟨remote, me, now, h, hsid⟩ | ⟨w, relay, msg, hf, h⟩
  · exact Or.inl ⟨remote, me, now, hKL h, hsid⟩
  · exact Or.inr ⟨w, relay, msg, hKL hf, h⟩

omit [Crypto] in
theorem Joined.mono {w : WrappedStream} {sid : String} (h : Joined K w sid) : Joined L w sid := by
  obtain ⟨hw, relay, msg, hrelay, h⟩ := h
  exact ⟨hKL hw, relay, msg, hrelay.imp (hKL ·) (hKL ·), h⟩

theorem Relayed.mono {sid : String} {data : Bytes} (h : Relayed K sid data) :
    Relayed L sid data := by
  rcases h with ⟨w, v, relay, hf, htype, hdata, hid, hv⟩ | ⟨hdata, h⟩
  · exact Or.inl ⟨w, v, relay, hKL hf, htype, hdata, hid, hv.mono hKL⟩
  · exact Or.inr ⟨hdata, h.mono hKL⟩

theorem Session.Held.mono {sid : String} {session : Session} (h : session.Held K sid) :
    session.Held L sid where
  early w hw := (h.early w hw).mono hKL
  later w hw := (h.later w hw).mono hKL
  role hrole := (h.role hrole).mono hKL

theorem CircuitConn.Held.mono {sid : String} {conn : CircuitConn} (h : conn.Held K sid) :
    conn.Held L sid where
  stream := h.stream.mono hKL
  id := h.id
  ends ht := (h.ends ht).mono hKL

theorem Shared.Held.mono {s : Shared} (h : s.Held K) : s.Held L where
  sessions sid session hs := (h.sessions sid session hs).mono hKL
  circuits sid conn hc := (h.circuits sid conn hc).mono hKL

theorem Sendable.mono {w : WrappedStream} {relay : Relay} (h : Sendable K w relay) :
    Sendable L w relay := by
  intro htype
  obtain ⟨msg, hmsg, hw, hdata⟩ := h htype
  exact ⟨msg, hmsg, hw.mono hKL, hdata.mono hKL⟩

omit [Codec] [Crypto] in
theorem NodeRequest.Owed.mono {r : NodeRequest} (h : r.Owed K) : r.Owed L := by
  cases r with
  | ackRequest => exact fun ack hack => (h ack hack).mono hKL
  | _ => trivial

theorem Task.Ready.mono {t : Task} (h : t.Ready K) : t.Ready L := by
  cases t with
  | dial => exact hKL h
  | relayEventHandler => exact ⟨hKL h.1, fun sid hsid => (h.2 sid hsid).mono hKL⟩
  | writeRelayArc => exact ⟨hKL h.1, h.2.mono hKL⟩
  | processHandshake => exact ⟨h.1.mono hKL, h.2.mono hKL⟩
  | _ => trivial

theorem Act.Allowed.mono {a : Act} (h : a.Allowed K) : a.Allowed L := by
  cases a with
  | spawn => exact Task.Ready.mono hKL h
  | read | close => exact hKL h
  | write =>
    obtain ⟨hw, relay, hstamped, hs⟩ := h
    exact ⟨hKL hw, relay, hstamped, hs.mono hKL⟩
  | send => exact ⟨h.1, h.2.mono hKL⟩
  | _ => trivial

theorem Output.Proper.mono {o : Output} (h : o.Proper K) : o.Proper L := by
  cases o with
  | write =>
    obtain ⟨hw, relay, hstamped, hs⟩ := h
    exact ⟨hKL hw, relay, hstamped, hs.mono hKL⟩
  | close => exact hKL h
  | request => exact ⟨h.1, h.2.mono hKL⟩
  | _ => trivial

end

/-- The conduct of the tasks. -/
def conduct : Conduct Known Shared Act.Res where
  allows := Act.Allowed
  learns := Act.learned
  holds := Shared.Held
  allows_mono hKL h := h.mono hKL
  holds_mono hKL h := h.mono hKL

/-- The next turn of a loop has what it works on. -/
def ready : Outcome Known (Option Task) where
  right K o := ∀ t, o = some t → t.Ready K
  mono hKL h t ht := (h t ht).mono hKL

/-- The circuit goes over the stream, if there is one. -/
def given (sessionId : String) : Outcome Known (Option WrappedStream) where
  right K o := ∀ w, o = some w → Joined K w sessionId
  mono hKL h w hw := (h w hw).mono hKL

/-- The frame has been written, under some identifier. -/
def wrote (stream : WrappedStream) (relay : Relay) : Outcome Known String where
  right K _ := ∃ relay', .written stream relay' ∈ K ∧ relay'.type = relay.type ∧
    relay'.data = relay.data
  mono := by
    rintro K L _ hKL ⟨relay', hwritten, h⟩
    exact ⟨relay', hKL hwritten, h⟩

/-- The circuit that a handler goes on with goes over its stream. -/
def serves (stream : WrappedStream) : Outcome Known (Option (Option String)) where
  right K o := ∀ sid, o = some (some sid) → Joined K stream sid
  mono hKL h sid hsid := (h sid hsid).mono hKL

theorem ready_none {K : Set Known} : ready.right K none := by
  rintro _ ⟨⟩

theorem ready_some {K : Set Known} {t : Task} (h : t.Ready K) : ready.right K (some t) := by
  rintro _ ⟨⟩
  exact h

/-- A program of a node that knows `K` abides by it. -/
abbrev Proper {α : Type} (K : Set Known) (p : Async α) : Prop := p.Abides conduct (.any Known α) K

open Prog Abides

/-! ## The maps -/

section

variable {K : Set Known} {s : Shared} {sid : String}

theorem Shared.Held.of_maps {s' : Shared} (h : s.Held K)
    (hsessions : s'.sessionMap = s.sessionMap) (hcircuits : s'.circuitMap = s.circuitMap) :
    s'.Held K where
  sessions := by rw [hsessions]; exact h.sessions
  circuits := by rw [hcircuits]; exact h.circuits

theorem Shared.Held.putSession (h : s.Held K) {o : Option Session}
    (ho : ∀ session, o = some session → session.Held K sid) :
    Shared.Held K { s with sessionMap := Function.update s.sessionMap sid o } where
  sessions k session hk := by
    dsimp only at hk
    rw [Function.update_apply] at hk
    split at hk
    · next heq =>
      rw [heq]
      exact ho session hk
    · exact h.sessions k session hk
  circuits := h.circuits

theorem Shared.Held.putCircuit (h : s.Held K) {o : Option CircuitConn}
    (ho : ∀ conn, o = some conn → conn.Held K sid) :
    Shared.Held K { s with circuitMap := Function.update s.circuitMap sid o } where
  sessions := h.sessions
  circuits k conn hk := by
    dsimp only at hk
    rw [Function.update_apply] at hk
    split at hk
    · next heq =>
      rw [heq]
      exact ho conn hk
    · exact h.circuits k conn hk

/-- The other maps are nobody's business here. -/
theorem write_proper {f : Shared → Shared}
    (hf : ∀ s, (f s).sessionMap = s.sessionMap ∧ (f s).circuitMap = s.circuitMap) :
    Proper K (Prog.write f) :=
  .write fun _ s _ hs => hs.of_maps (hf s).1 (hf s).2

theorem update_proper {α : Type} {f : Shared → Shared} {g : Shared → α}
    (hf : ∀ s, (f s).sessionMap = s.sessionMap ∧ (f s).circuitMap = s.circuitMap) :
    Proper K (Prog.update f g) :=
  .update fun _ s _ hs => hs.of_maps (hf s).1 (hf s).2

theorem insertSession_proper {session : Session} (h : session.Held K sid) :
    Proper K (Async.insertSession sid session) := by
  refine .write fun L s hKL hs => hs.putSession ?_
  rintro _ ⟨⟩
  exact h.mono hKL

theorem insertCircuit_proper {conn : CircuitConn} (h : conn.Held K sid) :
    Proper K (Async.insertCircuit sid conn) := by
  refine .write fun L s hKL hs => hs.putCircuit ?_
  rintro _ ⟨⟩
  exact h.mono hKL

theorem addCircuitConn_proper {stream : WrappedStream} (h : Joined K stream sid) :
    Proper K (addCircuitConn sid stream) := by
  refine .write fun L s hKL hs => ?_
  split
  · exact hs
  · refine Shared.Held.of_maps (hs.putCircuit (o := some ⟨sid, stream, s.nextChannel, none⟩) ?_)
      rfl rfl
    rintro _ ⟨⟩
    exact ⟨h.mono hKL, rfl, by rintro ⟨⟩⟩

theorem pushData_proper {data : Bytes} : Proper K (pushData sid data) := by
  refine write_proper fun s => ?_
  split <;> exact ⟨rfl, rfl⟩

end

/-! ## Frames -/

section

variable {K : Set Known} {stream : WrappedStream} {relay : Relay} {sessionId : String}

theorem newRelay_sendable {type : Relaytype} {data : Bytes} (h : type ≠ .data) :
    Sendable K stream (newRelay type data) := by
  intro htype
  change type.toI32 = Relaytype.data.toI32 at htype
  cases type with
  | data => exact absurd rfl h
  | _ => cases htype

theorem payloadRelay_sendable {buf : Bytes} (hw : Joined K stream sessionId)
    (h : Ends K sessionId) : Sendable K stream (payloadRelay buf sessionId) :=
  fun _ => ⟨_, Codec.decode_encode _, hw, Or.inr ⟨⟨_, rfl⟩, h⟩⟩

theorem writeRelayArc_abides (hw : .stream stream ∈ K) (hrelay : Sendable K stream relay) :
    (writeRelayArc stream relay).Abides conduct (wrote stream relay) K := by
  simp only [writeRelayArc, confusionRelay, Prog.call_bind, Prog.act_bind, Prog.pure_eq,
    Prog.ret_bind]
  refine .act trivial fun confusion => .act ⟨Or.inl hw, ?_⟩ fun _ => ?_
  · refine ⟨{ relay with confusion }, rfl, fun htype => ?_⟩
    exact hrelay.mono Set.subset_union_left htype
  · exact .pure ⟨_, Or.inr ⟨_, Codec.decode_encode _, rfl⟩, rfl, rfl⟩

theorem writeRelayArc_proper (hw : .stream stream ∈ K) (hrelay : Sendable K stream relay) :
    Proper K (writeRelayArc stream relay) :=
  (writeRelayArc_abides hw hrelay).forget

theorem writePayloadArc_proper {buf : Bytes} {len : ℕ} (hw : Joined K stream sessionId)
    (hends : Ends K sessionId) : Proper K (writePayloadArc stream buf len sessionId) := by
  refine .ite (fun _ => .fail) fun _ => .seq ?_ fun _ => .pure trivial
  exact writeRelayArc_proper hw.1 (payloadRelay_sendable hw hends)

theorem writeDisconnectArc_proper (hw : .stream stream ∈ K) :
    Proper K (writeDisconnectArc stream sessionId) :=
  .seq (writeRelayArc_proper hw (newRelay_sendable (by decide))) fun _ => .pure trivial

theorem writeRelayWakeArc_proper (hw : .stream stream ∈ K) : Proper K (writeRelayWakeArc stream) :=
  .seq (writeRelayArc_proper hw (newRelay_sendable (by decide))) fun _ => .pure trivial

/-- A frame goes from one stream of the session to the other one. -/
theorem forwardRelay_proper {session : Session} {curStreamId : ℕ} (h : session.Held K sessionId)
    (hrelay : ∀ w v, Joined K w sessionId → Joined K v sessionId → v.streamId = curStreamId →
      Sendable K w relay) : Proper K (forwardRelay session curStreamId relay) := by
  refine .unwrap_bind fun early hearly => .ite (fun hid => ?_) fun _ => ?_
  · refine .unwrap_bind fun later hlater => .seq ?_ fun _ => .pure trivial
    have hjoined := h.later later hlater
    exact writeRelayArc_proper hjoined.1 (hrelay later early hjoined (h.early early hearly) hid)
  · refine .unwrap_bind fun later hlater => .ite (fun hid => ?_) fun _ => .pure trivial
    refine .seq ?_ fun _ => .pure trivial
    have hjoined := h.early early hearly
    exact writeRelayArc_proper hjoined.1 (hrelay early later hjoined (h.later later hlater) hid)

theorem spawn_proper {t : Task} (ht : t.Ready K) : Proper K (Async.spawn t) := .call ht

theorem sendRelayTwoway_proper {session : Session} (h : session.Held K sessionId)
    (hrelay : ∀ w, Sendable K w relay) : Proper K (sendRelayTwoway session relay) := by
  have hspawn (w : WrappedStream) (hw : Joined K w sessionId) :
      Proper K (Async.spawn (.writeRelayArc w relay)) := spawn_proper ⟨hw.1, hrelay w⟩
  unfold sendRelayTwoway
  cases hearly : session.pairStream.earlyStream <;> cases hlater : session.pairStream.laterStream
  · exact .pure trivial
  · exact hspawn _ (h.later _ hlater)
  · exact .seq (hspawn _ (h.early _ hearly)) fun _ => .pure trivial
  · exact .seq (hspawn _ (h.early _ hearly)) fun _ => hspawn _ (h.later _ hlater)

end

/-! ## Messages -/

section

variable {K : Set Known} {node : Node} {peer : PeerId} {sessionId : String}

theorem awaitAck_proper {receiver : ℕ} : Proper K (Async.awaitAck receiver) :=
  .seq (.call trivial) fun _ => .unwrap _

theorem sendAck_proper {ack : Ack} (h : Asks K peer ack.commandId) :
    Proper K (Node.sendAck peer ack) := by
  refine .call ⟨rfl, ?_⟩
  rintro _ ⟨⟩
  exact h

theorem externalSendNodeRequestAndWait_proper {key : String} {r : NodeRequest} (hr : r.Complete)
    (howed : r.Owed K) : Proper K (Node.externalSendNodeRequestAndWait key r) := by
  refine .seq (update_proper fun s => ⟨rfl, rfl⟩) fun _ => ?_
  exact .seq (.call ⟨hr, howed⟩) fun _ => awaitAck_proper

/-- The request has no identifier yet. -/
theorem sendProxyRequestAndWait_proper {request : Request} (hid : request.reqId = "") :
    Proper K (Node.sendProxyRequestAndWait peer request) := by
  refine externalSendNodeRequestAndWait_proper ⟨rfl, _, rfl, ?_⟩ trivial
  dsimp only
  rw [← hid]

/-- The streams that are closed are those of the session that was there. -/
theorem handleCloseSession_proper : Proper K (Node.handleCloseSession sessionId) := by
  refine .modify fun L s _ hs => ⟨hs.putSession (by rintro _ ⟨⟩), ?_⟩
  have htail : Proper L (do
      Async.removeCircuit sessionId
      Async.removeProbe sessionId) :=
    .seq (.write fun _ _ _ hs => hs.putCircuit (by rintro _ ⟨⟩)) fun _ =>
      write_proper fun _ => ⟨rfl, rfl⟩
  cases hsession : s.sessionMap sessionId with
  | none => exact htail
  | some session =>
    have hheld := hs.sessions _ _ hsession
    dsimp only
    cases hearly : session.pairStream.earlyStream <;> cases hlater : session.pairStream.laterStream
    · exact htail
    · exact .seq (.call (hheld.later _ hlater).1) fun _ => htail
    · exact .seq (.call (hheld.early _ hearly).1) fun _ => htail
    · refine .seq (.call (hheld.early _ hearly).1) fun _ => ?_
      exact .seq (.call (hheld.later _ hlater).1) fun _ => htail

/-- The circuit goes over the stream that it gets, because it has said so. -/
theorem newSessionToPeer_abides {myRole otherRole : Int32} (hrole : Terminal myRole → Ends K sessionId) :
    (Node.newSessionToPeer peer sessionId myRole otherRole).Abides conduct (given sessionId) K := by
  unfold Node.newSessionToPeer
  refine .learn trivial fun stream => ?_
  cases stream with
  | none => exact .pure (by rintro _ ⟨⟩)
  | some stream =>
    have hw : Known.stream stream ∈ K ∪ conduct.learns (.newRelayStream peer) (some stream) :=
      Or.inr rfl
    refine .seq (writeRelayWakeArc_proper hw) fun _ => ?_
    refine .bind (writeRelayArc_abides hw (newRelay_sendable (by decide))) ?_
    rintro L key hL ⟨relay, hwritten, htype, hdata⟩
    have hjoined : Joined L stream sessionId :=
      ⟨hL hw, relay, ⟨sessionId, otherRole⟩, Or.inr hwritten, htype,
        hdata ▸ Codec.decode_encode _, rfl⟩
    have hends (h : Terminal myRole) : Ends L sessionId :=
      (hrole h).mono (Set.subset_union_left.trans hL)
    refine .seq (update_proper fun _ => ⟨rfl, rfl⟩) fun _ => .seq awaitAck_proper fun _ => ?_
    refine .seq (spawn_proper ⟨hjoined.1, ?_⟩) fun _ => .look fun M s hM hs => ?_
    · rintro _ ⟨⟩
      exact hjoined
    have hresult : (given sessionId).right M (some stream) := by
      rintro _ ⟨⟩
      exact hjoined.mono hM
    refine .ite (fun _ => ?_) fun _ => ?_
    · refine .seq (insertSession_proper ⟨?_, by rintro _ ⟨⟩, ?_⟩) fun _ => .pure hresult
      · rintro _ ⟨⟩
        exact hjoined.mono hM
      · exact fun h => (hends h).mono hM
    · refine .look fun N s hN hs => .unwrap_bind fun session hsession => ?_
      have hheld := hs.sessions _ _ hsession
      refine .seq (insertSession_proper ⟨hheld.early, ?_, hheld.role⟩) fun _ => ?_
      · rintro _ ⟨⟩
        exact (hjoined.mono hM).mono hN
      · exact .pure ((given sessionId).mono hN hresult)

theorem newSessionToPeer_proper {myRole otherRole : Int32} (hrole : ¬ Terminal myRole) :
    Proper K (Node.newSessionToPeer peer sessionId myRole otherRole) :=
  (newSessionToPeer_abides fun h => absurd h hrole).forget

theorem newCircuit_proper {remoteWhitenoiseId localWhitenoiseId localPeerId : String} :
    Proper K (Node.newCircuit remoteWhitenoiseId localWhitenoiseId localPeerId sessionId peer) :=
  .seq (.unwrap _) fun _ => .seq (.unwrap _) fun _ =>
    .seq (sendProxyRequestAndWait_proper rfl) fun _ => .pure trivial

theorem dial_proper {remoteWhitenoiseId : String} (h : .dials remoteWhitenoiseId ∈ K) :
    Proper K (Node.dial node remoteWhitenoiseId) := by
  unfold Node.dial
  refine .seq (.unwrap _) fun me => .seq (.call trivial) fun now => .seq (.unwrap _) fun _ => ?_
  refine .seq (.unwrap _) fun _ => .seq (write_proper fun _ => ⟨rfl, rfl⟩) fun _ => ?_
  have hends : Ends K (Node.generateSessionId remoteWhitenoiseId me now) :=
    Or.inl ⟨remoteWhitenoiseId, me, now, h, rfl⟩
  refine .seq (.unwrap _) fun _ => .bind (newSessionToPeer_abides fun _ => hends) ?_
  intro L stream _ hstream
  refine .unwrap_bind fun w hw => .seq (update_proper fun _ => ⟨rfl, rfl⟩) fun _ => ?_
  refine .seq (insertCircuit_proper ⟨hstream w hw, rfl, by rintro ⟨⟩⟩) fun _ => ?_
  exact .seq newCircuit_proper fun _ => .pure trivial

end

/-! ## The handler of a relay stream -/

section

variable {K : Set Known} {node : Node} {stream : WrappedStream} {relay : Relay}
  {sessionId : String} {circuitConn : CircuitConn} {noise : Crypto.Handshake}

theorem sendable_of_ne (htype : relay.type ≠ Relaytype.data.toI32) : Sendable K stream relay :=
  fun h => absurd h htype

theorem handleRelayProbe_proper (htype : relay.type ≠ Relaytype.data.toI32) :
    Proper K (handleRelayProbe sessionId stream relay) := by
  refine .seq (.unwrap _) fun probe => .look fun L s hL hs => ?_
  cases hsession : s.sessionMap sessionId with
  | none => exact .pure trivial
  | some session =>
    have hheld := hs.sessions _ _ hsession
    refine .ite (fun _ => .seq (.read _) fun found => .ite (fun _ => ?_) fun _ => ?_) fun _ =>
      .ite (fun _ => ?_) fun _ => .pure trivial
    · refine .seq (.read _) fun _ => .seq (.unwrap _) fun _ => .ite (fun _ => ?_) fun _ => ?_
      · exact sendRelayTwoway_proper hheld fun _ => newRelay_sendable (by decide)
      · exact handleCloseSession_proper
    · exact write_proper fun _ => ⟨rfl, rfl⟩
    · exact forwardRelay_proper hheld fun _ _ _ _ _ => sendable_of_ne htype

/-- A handshake starts at an end of the circuit. -/
theorem handleSuccess_proper (htype : relay.type ≠ Relaytype.data.toI32) :
    Proper K (handleSuccess stream relay) := by
  unfold handleSuccess
  cases (Codec.decode relay.data : Option CircuitSuccess) with
  | none => exact .pure trivial
  | some relaySuccess =>
    refine .look fun L s hL hs => ?_
    cases hsession : s.sessionMap relaySuccess.sessionId with
    | none => exact .pure trivial
    | some session =>
      have hheld := hs.sessions _ _ hsession
      have hspawn (initiate : Bool) (hrole : Terminal session.sessionRole) : Proper L (do
          let circuitConn ← Prog.unwrap (← Async.getCircuit relaySuccess.sessionId)
          Async.spawn (.processHandshake circuitConn initiate relaySuccess.sessionId)) := by
        refine .look fun M s hM hs => .unwrap_bind fun conn hconn => ?_
        exact spawn_proper ⟨hs.circuits _ _ hconn, (hheld.role hrole).mono hM⟩
      refine .ite (fun hrole => hspawn true (Or.inl hrole)) fun _ => ?_
      refine .ite (fun hrole => hspawn false (Or.inr hrole)) fun _ => .ite (fun _ => ?_) fun _ => ?_
      · exact forwardRelay_proper hheld fun _ _ _ _ _ => sendable_of_ne htype
      · exact .pure trivial

/-- Data that have come in are passed on as they are, if they have come over their circuit. -/
theorem handleRelayMsg_proper (h : .frame stream relay ∈ K)
    (htype : relay.type = Relaytype.data.toI32) : Proper K (handleRelayMsg stream relay) := by
  unfold handleRelayMsg
  cases hmsg : (Codec.decode relay.data : Option RelayMsg) with
  | none => exact .pure trivial
  | some relayMsg =>
    refine .look fun L s hL hs => ?_
    cases hsession : s.sessionMap relayMsg.sessionId with
    | none => exact .pure trivial
    | some session =>
      refine .ite (fun _ => pushData_proper) fun _ => .ite (fun _ => ?_) fun _ => .pure trivial
      refine forwardRelay_proper (hs.sessions _ _ hsession) fun w v hw hv hid _ => ?_
      exact ⟨relayMsg, hmsg, hw, Or.inl ⟨stream, v, relay, hL h, htype, rfl, hid, hv⟩⟩

theorem joinSession_held {s : Shared} (hs : s.Held K) (hw : Joined K stream sessionId) :
    (s.joinSession sessionId stream).Held K := by
  unfold Shared.joinSession
  cases hsession : s.sessionMap sessionId with
  | none => exact hs
  | some session =>
    have hheld := hs.sessions _ _ hsession
    refine hs.putSession ?_
    rintro _ ⟨⟩
    refine ⟨hheld.early, ?_, hheld.role⟩
    rintro _ ⟨⟩
    exact hw

theorem handleSetSession_proper {relaySetSession : SetSessionIdMsg} {relayId : String}
    (hw : Joined K stream relaySetSession.sessionId) (hid : Asks K stream.remotePeerId relayId)
    (hrole : Terminal relaySetSession.role → Ends K relaySetSession.sessionId) :
    Proper K (handleSetSession relaySetSession stream relayId) := by
  refine .look fun L s hL hs => ?_
  cases hsession : s.sessionMap relaySetSession.sessionId with
  | none =>
    refine .seq (insertSession_proper ⟨?_, by rintro _ ⟨⟩, fun h => (hrole h).mono hL⟩) fun _ => ?_
    · rintro _ ⟨⟩
      exact hw.mono hL
    · exact sendAck_proper (hid.mono hL)
  | some session =>
    have hheld := hs.sessions _ _ hsession
    refine .ite (fun _ => .ite (fun _ => ?_) fun _ => handleCloseSession_proper) fun _ => ?_
    · refine .seq (insertSession_proper ⟨hheld.early, ?_, hheld.role⟩) fun _ => ?_
      · rintro _ ⟨⟩
        exact hw.mono hL
      · refine .unwrap_bind fun later hlater => ?_
        have hjoined := hheld.later _ hlater
        refine .seq (writeDisconnectArc_proper hjoined.1) fun _ => ?_
        exact .seq (.call hjoined.1) fun _ => sendAck_proper (hid.mono hL)
    · refine .seq (.update fun M s hM hs => joinSession_held hs ((hw.mono hL).mono hM)) fun _ => ?_
      exact .ite (fun _ => sendAck_proper (hid.mono hL)) fun _ => .fail

/-- The circuit the handler goes on with is the old one, or the one the frame has named. -/
theorem relayEvent_abides {current : Option String} (hw : .stream stream ∈ K)
    (hcurrent : ∀ sid, current = some sid → Joined K stream sid) (h : .frame stream relay ∈ K) :
    (relayEvent stream current relay).Abides conduct (serves stream) K := by
  have hid : Asks K stream.remotePeerId relay.id := Or.inr (Or.inr ⟨stream, relay, h, rfl, rfl⟩)
  have hsame : (serves stream).right K (some current) :=
    fun sid hsid => hcurrent sid (Option.some.inj hsid)
  have hnone : (serves stream).right K none := by rintro _ ⟨⟩
  refine .ite (fun _ => .pure hsame) fun _ => .ite (fun _ => .pure hsame) fun _ => ?_
  refine .ite (fun htype => ?_) fun _ => .ite (fun _ => ?_) fun _ => .ite (fun htype => ?_) fun _ => ?_
  · refine .seq (.unwrap _) fun _ => .seq (handleRelayProbe_proper ?_) fun _ => .pure hsame
    rw [htype]
    decide
  · cases (Codec.decode relay.data : Option Disconnect) with
    | none => exact .pure hnone
    | some _ => exact .seq handleCloseSession_proper fun _ => .pure hnone
  · refine .unwrap_bind fun msg hmsg => ?_
    have hrole (hterminal : Terminal msg.role) : Ends K msg.sessionId :=
      Or.inr ⟨stream, relay, msg, h, htype, hmsg, rfl, hterminal⟩
    have hjoined : Joined K stream msg.sessionId :=
      ⟨hw, relay, msg, Or.inl h, htype, hmsg, rfl⟩
    have hgoes : Joined K stream (current.getD msg.sessionId) := by
      cases current with
      | none => exact hjoined
      | some sid => exact hcurrent sid rfl
    have hnext : (serves stream).right K (some (some (current.getD msg.sessionId))) := by
      rintro _ ⟨⟩
      exact hgoes
    refine .ite (fun _ => .seq (addCircuitConn_proper hgoes) fun _ => ?_) fun _ => ?_
    · exact .seq (handleSetSession_proper hjoined hid hrole) fun _ => .pure hnext
    · exact .seq (handleSetSession_proper hjoined hid hrole) fun _ => .pure hnext
  · refine .ite (fun htype => ?_) fun _ => .ite (fun htype => ?_) fun _ => .pure hsame
    · refine .seq (handleSuccess_proper ?_) fun _ => .pure hsame
      rw [htype]
      decide
    · exact .seq (handleRelayMsg_proper h htype) fun _ => .pure hsame

/-- It reads a stream of the node, and goes on with it. -/
theorem relayEventHandler_abides {current : Option String} (h : .stream stream ∈ K)
    (hcurrent : ∀ sid, current = some sid → Joined K stream sid) :
    (relayEventHandler stream current).Abides conduct ready K := by
  rw [relayEventHandler_eq]
  refine .act h fun res => ?_
  cases res with
  | error =>
    refine .seq ?_ fun _ => .pure ready_none
    cases current with
    | none => exact .pure trivial
    | some sessionId =>
      refine .seq (.read _) fun _ => .ite (fun _ => handleCloseSession_proper) fun _ => ?_
      exact .pure trivial
  | ok msg =>
    refine .unwrap_bind fun relay hmsg => .bind (relayEvent_abides (Or.inl h) ?_ ?_) ?_
    · exact fun sid hsid => (hcurrent sid hsid).mono Set.subset_union_left
    · exact Or.inr ⟨relay, hmsg, rfl⟩
    · intro L next hL hnext
      cases next with
      | none => exact .pure ready_none
      | some current =>
        exact .pure (ready_some ⟨hL (Or.inl h), fun sid hsid => hnext sid (congrArg some hsid)⟩)

theorem writeShake_proper {payload : Bytes} (hw : Joined K circuitConn.outStream sessionId)
    (hends : Ends K sessionId) : Proper K (writeShake circuitConn sessionId noise payload) :=
  .seq (.call trivial) fun _ => .seq (.unwrap _) fun _ =>
    .seq (writePayloadArc_proper hw hends) fun _ => .pure trivial

theorem readShake_proper : Proper K (readShake circuitConn noise) :=
  .seq (.call trivial) fun _ => .unwrap _

theorem establish_proper (hconn : circuitConn.Held K sessionId) (hends : Ends K sessionId) :
    Proper K (establish circuitConn sessionId noise) :=
  .seq (.unwrap _) fun _ => .seq (update_proper fun _ => ⟨rfl, rfl⟩) fun _ =>
    insertCircuit_proper ⟨hconn.stream, hconn.id, fun _ => hends⟩

theorem processHandshake_proper {initiate : Bool} (hconn : circuitConn.Held K sessionId)
    (hends : Ends K sessionId) :
    Proper K (processHandshake node circuitConn initiate sessionId) := by
  refine .seq (.call trivial) fun _ => .seq (.unwrap _) fun _ => .ite (fun _ => ?_) fun _ => ?_
  · refine .seq (.unwrap _) fun _ => .seq (writeShake_proper hconn.stream hends) fun _ => ?_
    refine .seq readShake_proper fun _ => .seq (.unwrap _) fun _ => ?_
    refine .seq (.unwrap _) fun _ => .seq (.unwrap _) fun _ => ?_
    exact .seq (writeShake_proper hconn.stream hends) fun _ => establish_proper hconn hends
  · refine .seq (.unwrap _) fun _ => .seq (.unwrap _) fun _ => ?_
    refine .seq readShake_proper fun _ => .seq (.unwrap _) fun _ => ?_
    refine .seq (writeShake_proper hconn.stream hends) fun _ => .seq readShake_proper fun _ => ?_
    exact .seq (.unwrap _) fun _ => .seq (.unwrap _) fun _ => establish_proper hconn hends

end

/-! ## What the application sends -/

section

variable {K : Set Known} {sessionId : String} {ref : ℕ} {payload : Bytes}

theorem writeTransport_proper : Proper K (writeTransport ref payload) := by
  refine .seq (update_proper fun s => ?_) fun _ => .seq (.unwrap _) fun _ => .pure trivial
  split <;> exact ⟨rfl, rfl⟩

/-- A message goes over a circuit that ends here. -/
theorem sendMessage_proper {message : Bytes} : Proper K (Node.sendMessage sessionId message) := by
  refine .look fun L s hL hs => .unwrap_bind fun conn hconn => .ite (fun _ => .pure trivial) ?_
  intro htransport
  have hheld := hs.circuits _ _ hconn
  unfold CircuitConn.write
  cases hstate : conn.transportState with
  | none => exact .pure trivial
  | some ref =>
    rw [hheld.id]
    refine .seq writeTransport_proper fun msg => writePayloadArc_proper hheld.stream ?_
    exact hheld.ends (by rw [hstate]; rfl)

theorem circuitRead_proper {conn : CircuitConn} {buf : Bytes} : Proper K (conn.read buf) := by
  unfold CircuitConn.read
  cases conn.transportState with
  | none => exact .pure trivial
  | some ref =>
    refine .seq (.call trivial) fun _ => .seq (.unwrap _) fun _ => .seq ?_ fun _ => .unwrap _
    refine .seq (update_proper fun s => ?_) fun _ => .seq (.unwrap _) fun _ => .pure trivial
    split <;> exact ⟨rfl, rfl⟩

end

/-! ## The request loops -/

section

variable {K : Set Known} {node : Node} {sessionId : String}

theorem eligible_proper {invalid : List String} {excluded des id : String} :
    Proper K (eligible node invalid excluded des id) := by
  unfold eligible
  cases node.bootPeerId with
  | none =>
    refine .seq (.call trivial) fun _ => .ite (fun _ => .seq (.read _) fun hash => ?_) fun _ => ?_
    · cases hash with
      | none => exact .pure trivial
      | some hash => exact .seq (.unwrap _) fun _ => .pure trivial
    · exact .pure trivial
  | some p =>
    refine .seq (.pure trivial) fun _ => .ite (fun _ => .seq (.read _) fun hash => ?_) fun _ => ?_
    · cases hash with
      | none => exact .pure trivial
      | some hash => exact .seq (.unwrap _) fun _ => .pure trivial
    · exact .pure trivial

theorem scanPeers_proper {nodeinfos : List NodeInfo} {invalid : List String}
    {excluded des : String} {j : ℕ} {index : UInt64} :
    Proper K (scanPeers node nodeinfos invalid excluded des j index) := by
  induction j generalizing index with
  | zero => exact .pure trivial
  | succ j ih =>
    refine .seq (.unwrap _) fun _ => .seq eligible_proper fun _ => ?_
    exact .ite (fun _ => .pure trivial) fun _ => ih

theorem tryPeers_proper {nodeinfos : List NodeInfo} {invalid : List String}
    {excluded des : String} {myRole otherRole : Int32} {i : ℕ} {peer : PeerId}
    (hrole : ¬ Terminal myRole) :
    Proper K (tryPeers node nodeinfos excluded des sessionId myRole otherRole i invalid peer) := by
  induction i generalizing invalid peer with
  | zero => exact .pure trivial
  | succ i ih =>
    refine .seq (.call trivial) fun index => .seq scanPeers_proper fun found => ?_
    cases found with
    | none =>
      refine .seq (.pure trivial) fun _ => .seq (newSessionToPeer_proper hrole) fun stream => ?_
      cases stream with
      | none => exact ih
      | some _ => exact .pure trivial
    | some id =>
      refine .seq (.unwrap _) fun _ => .seq (newSessionToPeer_proper hrole) fun stream => ?_
      cases stream with
      | none => exact ih
      | some _ => exact .pure trivial

theorem inviteCallee_proper {newCircuit : NewCircuit} {remotePeerId join : PeerId} :
    Proper K (inviteCallee node newCircuit remotePeerId join) := by
  refine .seq (sendProxyRequestAndWait_proper rfl) fun _ => .seq (.call trivial) fun _ => ?_
  refine .seq (.unwrap _) fun _ => .look fun L s _ hs => ?_
  cases hsession : s.sessionMap newCircuit.sessionId with
  | none => exact .pure trivial
  | some session =>
    refine .seq (sendRelayTwoway_proper (hs.sessions _ _ hsession) fun _ => newRelay_sendable (by decide)) ?_
    exact fun _ => .pure trivial

theorem buildAsEntry_proper {newCircuit : NewCircuit} {remotePeerId : PeerId} :
    Proper K (buildAsEntry node newCircuit remotePeerId) := by
  refine .seq (.call trivial) fun nodeinfos => ?_
  cases nodeinfos with
  | none => exact .pure trivial
  | some nodeinfos =>
    refine .seq (.call trivial) fun _ => .seq (tryPeers_proper (by decide)) fun found => ?_
    cases found with
    | none => exact .seq handleCloseSession_proper fun _ => .pure trivial
    | some _ => exact inviteCallee_proper

theorem buildAsEntryAndAccess_proper {newCircuit : NewCircuit} {toClientInfo : ClientInfo} :
    Proper K (buildAsEntryAndAccess newCircuit toClientInfo) := by
  refine .seq (newSessionToPeer_proper (by decide)) fun stream => ?_
  cases stream with
  | none => exact .pure trivial
  | some _ =>
    refine .look fun L s _ hs => ?_
    cases hsession : s.sessionMap newCircuit.sessionId with
    | none => exact .pure trivial
    | some session =>
      refine .seq (sendRelayTwoway_proper (hs.sessions _ _ hsession) fun _ => newRelay_sendable (by decide)) ?_
      exact fun _ => .pure trivial

theorem handleNewCircuit_proper {request : Request} {remotePeerId : PeerId} :
    Proper K (handleNewCircuit node request remotePeerId) := by
  unfold handleNewCircuit
  cases (Codec.decode request.data : Option NewCircuit) with
  | none => exact .pure trivial
  | some newCircuit =>
    refine .seq (.read _) fun fromClientInfo => .ite (fun _ => .pure trivial) fun _ => ?_
    refine .seq (.read _) fun session => ?_
    cases session with
    | none => exact .pure trivial
    | some session =>
      refine .ite (fun _ => .pure trivial) fun _ => .seq (.read _) fun toClientInfo => ?_
      cases toClientInfo with
      | none => exact buildAsEntry_proper
      | some _ => exact buildAsEntryAndAccess_proper

theorem unregister_proper {peerId : PeerId} : Proper K (unregister peerId) := by
  refine .seq (update_proper fun _ => ⟨rfl, rfl⟩) fun hash => ?_
  cases hash with
  | none => exact .pure trivial
  | some hash => exact write_proper fun _ => ⟨rfl, rfl⟩

theorem handleNewProxy_proper {request : Request} {remotePeerId : PeerId}
    (h : Asks K remotePeerId request.reqId) : Proper K (handleNewProxy request remotePeerId) := by
  refine .seq (.unwrap _) fun _ => .seq (.unwrap _) fun hash => .seq (.read _) fun _ => ?_
  refine .ite (fun _ => sendAck_proper h) fun _ => ?_
  refine .seq (write_proper fun _ => ⟨rfl, rfl⟩) fun _ => ?_
  exact .seq (write_proper fun _ => ⟨rfl, rfl⟩) fun _ => sendAck_proper h

theorem handleDecryptGossip_proper {request : Request} {remotePeerId : PeerId}
    (h : Asks K remotePeerId request.reqId) :
    Proper K (handleDecryptGossip node request remotePeerId) := by
  refine .seq (.unwrap _) fun _ => ?_
  have hreply (plainText : Bytes) : Proper K (do
      if (Codec.decode plainText : Option Negotiate).isSome then
        Node.sendAck remotePeerId ⟨request.reqId, true, plainText⟩) :=
    .ite (fun _ => sendAck_proper h) fun _ => .pure trivial
  cases Crypto.kind node.keypair with
  | ed25519 => exact .seq (.unwrap _) hreply
  | secp256k1 => exact .seq (.unwrap _) hreply
  | other => exact .seq .fail hreply

theorem handleNegPlainText_proper {request : Request} {remotePeerId : PeerId}
    (h : Asks K remotePeerId request.reqId) :
    Proper K (handleNegPlainText request remotePeerId) := by
  refine .seq (.unwrap _) fun _ => .seq (.read _) fun _ => .seq (.unwrap _) fun _ => ?_
  refine .seq (.unwrap _) fun _ => .seq (.call trivial) fun _ => .ite (fun _ => ?_) fun _ => ?_
  · exact .seq (.unwrap _) fun _ => sendAck_proper h
  · exact .seq (.unwrap _) fun _ => sendAck_proper h

theorem handleMainNetPeers_proper {request : Request} {remotePeerId : PeerId}
    (h : Asks K remotePeerId request.reqId) :
    Proper K (handleMainNetPeers request remotePeerId) := by
  refine .seq (.unwrap _) fun _ => .seq (.call trivial) fun peers => ?_
  cases peers <;> exact sendAck_proper h

theorem processProxyRequest_proper {r : NodeProxyRequest}
    (h : ∀ q, r.proxyRequest = some q → .request r.remotePeerId q ∈ K) :
    Proper K (processProxyRequest node r) := by
  unfold processProxyRequest
  cases r.peerOperation with
  | some op =>
    cases op
    exact unregister_proper
  | none =>
    refine .unwrap_bind fun request hr => ?_
    have hasks : Asks K r.remotePeerId request.reqId := Or.inl ⟨request, h request hr, rfl⟩
    refine .ite (fun _ => handleDecryptGossip_proper hasks) fun _ => ?_
    refine .ite (fun _ => handleNegPlainText_proper hasks) fun _ => ?_
    refine .ite (fun _ => handleMainNetPeers_proper hasks) fun _ => ?_
    refine .ite (fun _ => handleNewProxy_proper hasks) fun _ => ?_
    refine .ite (fun _ => unregister_proper) fun _ => .ite (fun _ => ?_) fun _ => .pure trivial
    exact .seq handleNewCircuit_proper fun _ => sendAck_proper hasks

theorem buildAsAccess_proper {negotiate : Negotiate} {des : String} :
    Proper K (buildAsAccess node negotiate des) := by
  refine .seq (.call trivial) fun nodeinfos => ?_
  cases nodeinfos with
  | none => exact .pure trivial
  | some nodeinfos =>
    refine .seq (.call trivial) fun _ => .seq (tryPeers_proper (by decide)) fun found => ?_
    cases found with
    | none => exact handleCloseSession_proper
    | some relay =>
      refine .seq (externalSendNodeRequestAndWait_proper ⟨_, rfl, rfl⟩ trivial) fun ack => ?_
      refine .ite (fun _ => handleCloseSession_proper) fun _ => .look fun L s _ hs => ?_
      cases hsession : s.sessionMap negotiate.sessionId with
      | none => exact .pure trivial
      | some session =>
        exact sendRelayTwoway_proper (hs.sessions _ _ hsession) fun _ => newRelay_sendable (by decide)

theorem processPublishRequest_proper {data : Bytes} :
    Proper K (processPublishRequest node data) := by
  refine .seq (.unwrap _) fun _ => .seq (.read _) fun _ => .ite (fun _ => ?_) fun _ => ?_
  · refine .seq (.read _) fun _ => .seq (.unwrap _) fun _ => ?_
    refine .seq (sendProxyRequestAndWait_proper rfl) fun _ => .ite (fun _ => .pure trivial) fun _ => ?_
    refine .seq (.unwrap _) fun negotiate => .seq (newSessionToPeer_proper (by decide)) fun stream => ?_
    cases stream with
    | none => exact handleCloseSession_proper
    | some _ =>
      refine .ite (fun _ => .look fun L s _ hs => ?_) fun _ => buildAsAccess_proper
      cases hsession : s.sessionMap negotiate.sessionId with
      | none => exact .pure trivial
      | some session =>
        exact sendRelayTwoway_proper (hs.sessions _ _ hsession) fun _ => newRelay_sendable (by decide)
  · exact .pure trivial

theorem processCmdRequest_proper {r : NodeCmdRequest}
    (h : ∀ c, r.cmdRequest = some c → .command r.remotePeerId c ∈ K) :
    Proper K (processCmdRequest r) := by
  refine .unwrap_bind fun command hr => ?_
  have hasks : Asks K r.remotePeerId command.commandId :=
    Or.inr (Or.inl ⟨command, h command hr, rfl⟩)
  refine .ite (fun _ => .seq (.unwrap _) fun expend => .look fun L s hL hs => ?_) fun _ => ?_
  · cases hsession : s.sessionMap expend.sessionId with
    | none => exact .seq handleCloseSession_proper fun _ => sendAck_proper (hasks.mono hL)
    | some session =>
      refine .ite (fun _ => .seq (sendAck_proper (hasks.mono hL)) fun _ => ?_) fun _ => ?_
      · exact sendRelayTwoway_proper (hs.sessions _ _ hsession) fun _ => newRelay_sendable (by decide)
      · refine .seq (.unwrap _) fun _ => .seq (newSessionToPeer_proper (by decide)) fun stream => ?_
        cases stream with
        | none => exact .seq handleCloseSession_proper fun _ => sendAck_proper (hasks.mono hL)
        | some _ => exact sendAck_proper (hasks.mono hL)
  · exact .pure trivial

/-- The tasks of a node abide by its conduct, if they have what they work on. -/
theorem Task.body_abides {t : Task} (ht : t.Ready K) : (t.body node).Abides conduct ready K := by
  cases t with
  | relayEventHandler => exact relayEventHandler_abides ht.1 ht.2
  | writeRelayArc => exact .seq (writeRelayArc_proper ht.1 ht.2) fun _ => .pure ready_none
  | processHandshake => exact .seq (processHandshake_proper ht.1 ht.2) fun _ => .pure ready_none
  | processProxyRequest =>
    refine .learn trivial fun r => .seq (processProxyRequest_proper fun q hq => ?_) fun _ => ?_
    · exact Or.inr ⟨q, hq, rfl⟩
    · exact .pure (ready_some trivial)
  | processCmdRequest =>
    refine .learn trivial fun r => .seq (processCmdRequest_proper fun c hc => ?_) fun _ => ?_
    · exact Or.inr ⟨c, hc, rfl⟩
    · exact .pure (ready_some trivial)
  | processPublishRequest =>
    refine .seq (.call trivial) fun _ => .seq processPublishRequest_proper fun _ => ?_
    exact .pure (ready_some trivial)
  | registerProxy =>
    refine .seq (.seq (.unwrap _) fun _ => ?_) fun _ => .pure ready_none
    exact .seq (sendProxyRequestAndWait_proper rfl) fun _ => .pure trivial
  | getMainNets =>
    refine .seq (.seq (sendProxyRequestAndWait_proper rfl) fun _ => ?_) fun _ => .pure ready_none
    exact .seq (.unwrap _) fun _ => .pure trivial
  | dial => exact .seq (dial_proper ht) fun _ => .pure ready_none
  | disconnectCircuit => exact .seq handleCloseSession_proper fun _ => .pure ready_none

end

/-! ## All runs -/

section

variable {node : Node} {p p' : NodePool} {e : Event} {o : List Output} {K L : Set Known}

theorem outputs_proper {a : Act} (ha : a.Allowed K) (r : a.Res) : ∀ o ∈ a.outputs r, o.Proper K := by
  intro o ho
  cases a with
  | newRelayStream p =>
    cases r with
    | none => exact absurd ho List.not_mem_nil
    | some w =>
      obtain rfl := List.mem_singleton.mp ho
      trivial
  | write | send | close =>
    obtain rfl := List.mem_singleton.mp ho
    exact ha
  | publish =>
    obtain rfl := List.mem_singleton.mp ho
    trivial
  | _ => exact absurd ho List.not_mem_nil

theorem spawned_ready {a : Act} {c : Choice} {s : Shared} {x : Reply Shared Task Output a.Res}
    (ha : a.Allowed K) (hx : Shared.reply a c s = some x) : ∀ t ∈ x.spawned, t.Ready K := by
  rcases a.plain_or with hplain | ⟨t, rfl⟩ | ⟨w, rfl⟩
  · rw [(reply_plain hplain hx).2]
    simp
  · cases hx
    rintro _ ht
    obtain rfl := List.mem_singleton.mp ht
    exact ha
  · obtain ⟨_, _, -, rfl⟩ := Shared.dequeue_eq_some hx
    simp

theorem reply_held {a : Act} {c : Choice} {s : Shared} {x : Reply Shared Task Output a.Res}
    (hs : s.Held K) (hx : Shared.reply a c s = some x) : x.state.Held K :=
  hs.of_maps (reply_sameMaps hx).sessionMap (reply_sameMaps hx).circuitMap

/-- The tasks that the node starts with keep to the conduct. -/
theorem start_abides {ts : List Task} (hts : ∀ t ∈ ts, t.Ready K) :
    (Acks.start node ts).Abides conduct ready K where
  holds := ⟨by rintro _ _ ⟨⟩, by rintro _ _ ⟨⟩⟩
  threads t ht := by
    obtain ⟨task, htask, rfl⟩ := List.mem_map.mp ht
    exact Task.body_abides (hts task htask)

/-- One event, if the tasks know by then what it tells the node. -/
theorem nodeStep_abides (hKL : K ⊆ L) (hp : p.Abides conduct ready K)
    (hthread : ∀ i c a x, e = .thread i c → a.Allowed K → Shared.reply a c p.state = some x →
      o = x.outputs → a.learned x.answer ⊆ L)
    (hinbound : ∀ w, e = .inbound w → .stream w ∈ L) (hcall : ∀ t, e = .call t → t.Ready L)
    (h : nodeStep node p e = some (p', o)) :
    p'.Abides conduct ready L ∧ ∀ out ∈ o, out.Proper L := by
  have hL := hp.mono hKL
  cases e with
  | thread i c =>
    have hbody (t : Task) (ht : ready.right K (some t)) : (t.body node).Abides conduct ready K :=
      Task.body_abides (ht t rfl)
    have hreply (a : Act) (x : Reply Shared Task Output a.Res) (ha : a.Allowed K)
        (hx : Shared.reply a c p.state = some x) :
        x.state.Held K ∧ ∀ t ∈ x.spawned, (t.body node).Abides conduct ready K :=
      ⟨reply_held hp.holds hx, fun t ht => Task.body_abides (spawned_ready ha hx t ht)⟩
    rcases hp.step (nodeSemantics node) hbody hreply h with
      ⟨hp', rfl⟩ | ⟨a, x, ha, hx, rfl, hp'⟩
    · exact ⟨hp'.mono hKL, by simp⟩
    · refine ⟨hp'.mono (Set.union_subset hKL (hthread i c a x rfl ha hx rfl)), fun out hout => ?_⟩
      rw [Shared.reply_outputs hx] at hout
      exact (outputs_proper ha x.answer out hout).mono hKL
  | ack peer ack =>
    cases h
    refine ⟨⟨hL.holds.of_maps ?_ ?_, hL.threads⟩, by simp⟩ <;>
    · simp only [Shared.injectAck]
      split <;> rfl
  | proxyRequest | cmdRequest | gossip | frame =>
    cases h
    exact ⟨⟨hL.holds.of_maps rfl rfl, hL.threads⟩, by simp⟩
  | inbound stream =>
    simp only [nodeStep] at h
    split at h
    · cases h
    · cases h
      refine ⟨hL.append (nodeSemantics node) [.relayEventHandler stream none] ?_ ?_ rfl, by simp⟩
      · rintro t ht
        have hready : t.Ready L := by
          rw [List.mem_singleton.mp ht]
          exact ⟨hinbound stream rfl, by rintro _ ⟨⟩⟩
        exact Task.body_abides hready
      · exact hL.holds.of_maps rfl rfl
  | call t =>
    cases h
    refine ⟨hL.append (nodeSemantics node) [t] ?_ hL.holds rfl, by simp⟩
    rintro t' ht
    obtain rfl := List.mem_singleton.mp ht
    exact Task.body_abides (hcall _ rfl)

end

end Generic

end WhiteNoise
