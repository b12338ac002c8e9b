import WhiteNoise.Session.Turns
import WhiteNoise.Network.Ideal

/-! # Which requests to build a circuit are answered

A peer that offers a session or has one extended waits for the acknowledgement
without a timeout. An entry node that is asked to be the relay before it has
both streams closes the session and acknowledges nothing.
-/

namespace WhiteNoise.Building

open Wire Process

section Generic

variable [Codec] [Crypto]

/-- A frame that offers a session or a command to extend one, with its decoded contents. -/
inductive BuildRequest where
  | setSessionId (stream : WrappedStream) (current : Option String) (relay : Relay)
      (msg : SetSessionIdMsg)
  | sessionExPend (peer : PeerId) (command : Command) (msg : SessionExpend)

namespace BuildRequest

/-- The contents are those of the frame or the command, and the peer to extend to can be read. -/
def Wellformed : BuildRequest → Prop
  | setSessionId _ _ relay msg =>
    relay.type = Relaytype.setSessionId.toI32 ∧ Codec.decode relay.data = some msg
  | sessionExPend _ command msg =>
    command.type = Cmdtype.sessionExPend.toI32 ∧ Codec.decode command.data = some msg ∧
      (peerIdOfBase58 msg.peerId).isSome

/-- One turn of the loop that serves the request. -/
def body : BuildRequest → Async Unit
  | setSessionId stream current relay _ => do
    let _ ← relayEvent stream current relay
  | sessionExPend peer command _ => processCmdRequest ⟨peer, some command⟩

def sessionId : BuildRequest → String
  | setSessionId _ _ _ msg => msg.sessionId
  | sessionExPend _ _ msg => msg.sessionId

def requester : BuildRequest → PeerId
  | setSessionId stream _ _ _ => stream.remotePeerId
  | sessionExPend peer _ _ => peer

/-- What the requester waits for. -/
def id : BuildRequest → String
  | setSessionId _ _ relay _ => relay.id
  | sessionExPend _ command _ => command.commandId

/-- The stream of the request, which the others do not displace. -/
def Held : BuildRequest → WrappedStream → Prop
  | setSessionId stream _ _ _, w => w = stream
  | sessionExPend _ _ _, _ => False

/-- The stream is part of the session, or the result says whether the session has both streams. -/
def Outcome (req : BuildRequest) (entry : Option Session) (ack : Ack) : Prop :=
  match req with
  | setSessionId stream _ _ _ => ∃ session, entry = some session ∧
    (session.pairStream.earlyStream = some stream ∨ session.pairStream.laterStream = some stream)
  | sessionExPend _ _ _ => ack.result = true ↔ ∃ session, entry = some session ∧ session.ready

/-- The entry node is not asked to be the relay before it has both streams, and a session to extend
has its early stream. -/
def Accepted (req : BuildRequest) (entry : Option Session) : Prop :=
  match req with
  | setSessionId _ _ _ msg => ∀ session, entry = some session → ¬ Session.isRefused msg session
  | sessionExPend _ _ _ => ∀ session, entry = some session → session.pairStream.earlyStream.isSome

end BuildRequest

/-- Exactly one acknowledgement, to the requester and under the identifier, with the outcome that it
stands for. -/
def Acknowledges (req : BuildRequest) (r : TurnRecord Unit) : Prop :=
  ∃ ack, acksOf r.outputs = [⟨req.requester, some ack⟩] ∧ ack.commandId = req.id ∧
    req.Outcome (r.state.sessionMap req.sessionId) ack

/-- A run that serves the request among the other tasks, which neither open nor close the session. -/
def Serves (node : Node) (req : BuildRequest) (s : Shared) (r : TurnRecord Unit) : Prop :=
  Turn node (Undisturbed req.Held req.sessionId) .free req.body s r ∧ Heard r

/-- The request can be served, and whenever it has been, it is acknowledged. -/
def Acknowledged (node : Node) (s : Shared) (req : BuildRequest) : Prop :=
  (∃ r, Serves node req s r) ∧ ∀ r, Serves node req s r → Acknowledges req r

variable {node : Node} {s : Shared}

/-! ## Offers -/

section Offers

variable {stream : WrappedStream} {current : Option String} {relay : Relay} {msg : SetSessionIdMsg}
  {r : TurnRecord Unit}

theorem acksOf_joinAck {rely : Shared → Shared → Prop} {proviso : Proviso Shared Choice Act.Res}
    {relayId : String} (h : Turn node rely proviso (joinAck stream relayId) s r) :
    acksOf r.outputs = [⟨stream.remotePeerId, some ⟨relayId, true, []⟩⟩] := by
  rw [turn_sendAck h]
  rfl

theorem acksOf_disconnectLater {rely : Shared → Shared → Prop}
    {proviso : Proviso Shared Choice Act.Res} {relayId sid : String} {later : WrappedStream}
    (h : Turn node rely proviso (disconnectLater later stream sid relayId) s r) :
    acksOf r.outputs = [⟨stream.remotePeerId, some ⟨relayId, true, []⟩⟩] := by
  simp only [disconnectLater, writeDisconnectArc, bind_assoc] at h
  obtain ⟨s₁, s₂, b, r₁, -, -, h₁, rfl⟩ := turn_writeRelayArc h
  obtain ⟨s₃, r₂, -, h₂, rfl⟩ := turn_close h₁
  have hack := acksOf_joinAck h₂
  exact hack

theorem body_setSessionId (htype : relay.type = Relaytype.setSessionId.toI32)
    (hdec : Codec.decode relay.data = some msg) :
    (BuildRequest.setSessionId stream current relay msg).body = (do
      if msg.role = SessionRole.answerRole.toI32 then
        addCircuitConn (current.getD msg.sessionId) stream
      handleSetSession msg stream relay.id) := by
  have hunit (p : Async Unit) : (p >>= fun _ => .ret ()) = p := Prog.bind_ret p
  simp only [BuildRequest.body, relayEvent_setSessionId htype, hdec, Prog.unwrap_some,
    Prog.ret_bind, Prog.pure_eq]
  split
  · simp only [bind_assoc, Prog.ret_bind, hunit]
  · simp only [bind_assoc, Prog.ret_bind, hunit]

/-- Whatever the role, the offer is handled in a state with the same sessions. -/
theorem turn_setSessionId {held : WrappedStream → Prop}
    (htype : relay.type = Relaytype.setSessionId.toI32) (hdec : Codec.decode relay.data = some msg)
    (h : Turn node (Undisturbed held msg.sessionId) .free
      (BuildRequest.setSessionId stream current relay msg).body s r) :
    ∃ s', Undisturbed held msg.sessionId s s' ∧ Turn node (Undisturbed held msg.sessionId) .free
      (handleSetSession msg stream relay.id) s' r := by
  rw [body_setSessionId htype hdec] at h
  split at h
  · obtain ⟨s', -, hs', -, h'⟩ := h
    refine ⟨_, ?_, h'⟩
    dsimp only
    cases s'.circuitMap (current.getD msg.sessionId) with
    | none => exact hs'
    | some conn => exact hs'
  · exact ⟨s, undisturbed_of_eq rfl, h⟩

/-- An offer of a session that is not refused is acknowledged, and the stream is part of it. -/
theorem acknowledges_setSessionId (htype : relay.type = Relaytype.setSessionId.toI32)
    (hdec : Codec.decode relay.data = some msg)
    (haccepted : ∀ session, s.sessionMap msg.sessionId = some session →
      ¬ Session.isRefused msg session)
    (h : Turn node (Undisturbed (fun w => w = stream) msg.sessionId) .free
      (BuildRequest.setSessionId stream current relay msg).body s r) :
    acksOf r.outputs = [⟨stream.remotePeerId, some ⟨relay.id, true, []⟩⟩] ∧
      Part stream (r.state.sessionMap msg.sessionId) := by
  have hpart {p : Async Unit} (hp : Calm p) {s' : Shared} {entry : Option Session}
      (hrun : Turn node (Undisturbed (fun w => w = stream) msg.sessionId) .free p
        (s'.setEntry msg.sessionId (some (Session.attach msg.sessionId msg.role stream entry))) r) :
      Part stream (r.state.sessionMap msg.sessionId) := by
    have hkept (s s' : Shared) (hs : Undisturbed (fun w => w = stream) msg.sessionId s s')
        (hpart : Part stream (s.sessionMap msg.sessionId)) :
        Part stream (s'.sessionMap msg.sessionId) := part_undisturbed hs rfl hpart
    refine entry_calm hkept hp hrun ?_
    simp only [Shared.setEntry, Function.update_self]
    exact part_attach
  obtain ⟨s₀, hs₀, hhandle⟩ := turn_setSessionId htype hdec h
  obtain ⟨s₁, hs₁, hjoins⟩ := turn_handleSetSession hhandle
  cases hjoins with
  | opened hnone s₂ hs₂ hrun => exact ⟨acksOf_joinAck hrun, hpart calm_joinAck hrun⟩
  | refused session hsome hrefused hrun =>
    obtain ⟨session, hsome, hrefused⟩ := refused_of_undisturbed hs₁ hsome hrefused
    obtain ⟨session, hsome, hrefused⟩ := refused_of_undisturbed hs₀ hsome hrefused
    exact absurd hrefused (haccepted session hsome)
  | replaced session later hsome hrole hready hlater s₂ hs₂ hrun =>
    exact ⟨acksOf_disconnectLater hrun, hpart calm_disconnectLater hrun⟩
  | joined session current' hsome hrole s₂ hs₂ hcurrent hrun =>
    exact ⟨acksOf_joinAck hrun, hpart calm_joinAck hrun⟩
  | vanished session hsome s₂ hs₂ hnone =>
    obtain ⟨session', hsession', -⟩ := hs₂.some hsome
    rw [hnone] at hsession'
    cases hsession'

theorem exists_setSessionId (htype : relay.type = Relaytype.setSessionId.toI32)
    (hdec : Codec.decode relay.data = some msg) :
    ∃ r, Serves node (.setSessionId stream current relay msg) s r := by
  refine exists_prompt ?_ node (fun s => undisturbed_of_eq rfl) s
  rw [body_setSessionId htype hdec]
  split
  · exact ⟨trivial, fun _ => handleSetSession_prompt⟩
  · exact handleSetSession_prompt

/-- A refused offer closes the session, and nothing is acknowledged. -/
theorem exists_refused {session : Session} (htype : relay.type = Relaytype.setSessionId.toI32)
    (hdec : Codec.decode relay.data = some msg)
    (hsome : s.sessionMap msg.sessionId = some session) (hrefused : Session.isRefused msg session) :
    ∃ r, Serves node (.setSessionId stream current relay msg) s r ∧ acksOf r.outputs = [] := by
  have hrelay : msg.role = SessionRole.relayRole.toI32 := by
    simp only [Session.isRefused, decide_eq_true_eq] at hrefused
    exact hrefused.2.1
  have hbody : (BuildRequest.setSessionId stream current relay msg).body =
      handleSetSession msg stream relay.id := by
    rw [body_setSessionId htype hdec, if_neg]
    rw [hrelay]
    decide
  have hrefl (s : Shared) : Undisturbed (fun w => w = stream) msg.sessionId s s :=
    undisturbed_of_eq rfl
  obtain ⟨r, hrun, hheard⟩ :=
    exists_prompt (handleCloseSession_prompt msg.sessionId) node hrefl s
  refine ⟨r, ⟨?_, hheard⟩, acksOf_silent silent_handleCloseSession hrun⟩
  rw [hbody]
  exact turn_refused (hrefl s) hsome hrefused hrun

theorem acknowledged_setSessionId_iff (htype : relay.type = Relaytype.setSessionId.toI32)
    (hdec : Codec.decode relay.data = some msg) :
    Acknowledged node s (.setSessionId stream current relay msg) ↔
      BuildRequest.Accepted (.setSessionId stream current relay msg)
        (s.sessionMap msg.sessionId) := by
  constructor
  · rintro ⟨-, hall⟩ session hsome hrefused
    obtain ⟨r, hserves, hnone⟩ : ∃ r, Serves node (.setSessionId stream current relay msg) s r ∧
        acksOf r.outputs = [] := exists_refused htype hdec hsome hrefused
    obtain ⟨ack, hack, -⟩ := hall r hserves
    rw [hnone] at hack
    cases hack
  · rintro haccepted
    constructor
    · exact exists_setSessionId htype hdec
    · rintro r ⟨hrun, -⟩
      obtain ⟨hacks, hpart⟩ := acknowledges_setSessionId htype hdec haccepted hrun
      exact ⟨_, hacks, rfl, hpart⟩

end Offers

/-! ## Extensions -/

section Extensions

variable {peer sink : PeerId} {command : Command} {msg : SessionExpend} {r : TurnRecord Unit}

/-- Extend the session to the sink. -/
def extendTo (peer sink : PeerId) (commandId sid : String) : Async Unit := do
  match ← Node.newSessionToPeer sink sid SessionRole.relayRole.toI32
      SessionRole.sinkRole.toI32 with
  | none =>
    Node.handleCloseSession sid
    Node.sendAck peer ⟨commandId, false, utf8 "new session error"⟩
  | some _ => Node.sendAck peer ⟨commandId, true, []⟩

theorem extendTo_eq (peer sink : PeerId) (commandId sid : String) :
    extendTo peer sink commandId sid = (do
      match ← Node.offerSession sink sid SessionRole.sinkRole.toI32 with
      | none =>
        Node.handleCloseSession sid
        Node.sendAck peer ⟨commandId, false, utf8 "new session error"⟩
      | some stream =>
        Node.putSession stream sid SessionRole.relayRole.toI32
        Node.sendAck peer ⟨commandId, true, []⟩) := by
  rw [extendTo, Node.newSessionToPeer_offer, bind_assoc]
  congr
  funext stream
  cases stream with
  | none => rfl
  | some stream => simp only [bind_assoc, Prog.pure_eq, Prog.ret_bind]

/-- What is left of a turn of the command loop that has seen the entry of the session in the
state. -/
inductive Extends (node : Node) (held : WrappedStream → Prop) (peer sink : PeerId)
    (command : Command) (sid : String) (s : Shared) (r : TurnRecord Unit) : Prop
  | absent (hnone : s.sessionMap sid = none)
      (h : Turn node (Undisturbed held sid) .free (do
        Node.handleCloseSession sid
        Node.sendAck peer ⟨command.commandId, false, utf8 "No such session"⟩) s r)
  | ready (session : Session) (hsome : s.sessionMap sid = some session) (hready : session.ready)
      (h : Turn node (Undisturbed held sid) .free (do
        Node.sendAck peer ⟨command.commandId, true, []⟩
        sendRelayTwoway session (newRelayCircuitSuccess sid)) s r)
  | half (session : Session) (hsome : s.sessionMap sid = some session)
      (hready : session.ready = false)
      (h : Turn node (Undisturbed held sid) .free (extendTo peer sink command.commandId sid) s r)

theorem processCmdRequest_eq (htype : command.type = Cmdtype.sessionExPend.toI32)
    (hdec : Codec.decode command.data = some msg) (hsink : peerIdOfBase58 msg.peerId = some sink) :
    processCmdRequest ⟨peer, some command⟩ = (do
      match ← Async.getSession msg.sessionId with
      | none =>
        Node.handleCloseSession msg.sessionId
        Node.sendAck peer ⟨command.commandId, false, utf8 "No such session"⟩
      | some session =>
        if session.ready then
          Node.sendAck peer ⟨command.commandId, true, []⟩
          sendRelayTwoway session (newRelayCircuitSuccess msg.sessionId)
        else
          extendTo peer sink command.commandId msg.sessionId) := by
  simp only [processCmdRequest, htype, hdec, hsink, Prog.unwrap_some, Prog.ret_bind, if_true]
  rfl

theorem turn_sessionExPend {held : WrappedStream → Prop}
    (htype : command.type = Cmdtype.sessionExPend.toI32)
    (hdec : Codec.decode command.data = some msg) (hsink : peerIdOfBase58 msg.peerId = some sink)
    (h : Turn node (Undisturbed held msg.sessionId) .free
      (BuildRequest.sessionExPend peer command msg).body s r) :
    ∃ s', Undisturbed held msg.sessionId s s' ∧
      Extends node held peer sink command msg.sessionId s' r := by
  simp only [BuildRequest.body, processCmdRequest_eq htype hdec hsink, Async.getSession,
    Prog.read_bind] at h
  obtain ⟨s', -, hs', -, h⟩ := h
  refine ⟨s', hs', ?_⟩
  beta_reduce at h
  cases hentry : s'.sessionMap msg.sessionId with
  | none =>
    rw [hentry] at h
    exact .absent hentry h
  | some session =>
    rw [hentry] at h
    dsimp only at h
    split at h
    · next hready => exact .ready session hentry hready h
    · next hready => exact .half session hentry (Bool.not_eq_true _ ▸ hready) h

/-- The session is closed and the requester told. -/
theorem turn_closeAck {held : WrappedStream → Prop} {sid : String} {ack : Ack}
    (h : Turn node (Undisturbed held sid) .free (do
      Node.handleCloseSession sid
      Node.sendAck peer ack) s r) :
    acksOf r.outputs = [⟨peer, some ack⟩] ∧ r.state.sessionMap sid = none := by
  have hnone (s s' : Shared) (hs : Undisturbed held sid s s') (hn : s.sessionMap sid = none) :
      s'.sessionMap sid = none := hs.none hn
  rcases h.bind with ⟨r₁, h₁, hfail, -⟩ | ⟨r₁, a, r₂, h₁, -, h₂, rfl⟩
  · obtain ⟨hanswer, -⟩ := turn_handleCloseSession hnone h₁
    rw [hfail] at hanswer
    cases hanswer
  · obtain ⟨-, hclosed⟩ := turn_handleCloseSession hnone h₁
    constructor
    · rw [Record.append, acksOf_append, acksOf_silent silent_handleCloseSession h₁,
        turn_sendAck h₂]
      rfl
    · have hcalm : Calm (Node.sendAck peer ack) := ⟨trivial, fun _ => trivial⟩
      have hstill : r₂.state.sessionMap sid = none :=
        entry_calm (P := fun entry => entry = none) hnone hcalm h₂ hclosed
      exact hstill

/-- The session has both streams. -/
def Complete (entry : Option Session) : Prop := ∃ session, entry = some session ∧ session.ready

omit [Codec] in
theorem complete_undisturbed {held : WrappedStream → Prop} {sid : String} {s s' : Shared}
    (h : Undisturbed held sid s s') (hs : Complete (s.sessionMap sid)) :
    Complete (s'.sessionMap sid) := by
  obtain ⟨session, hsession, hready⟩ := hs
  obtain ⟨session', hsession', hstays⟩ := h.some hsession
  exact ⟨session', hsession', hstays.ready hready⟩

/-- The session has its early stream. -/
def Begun (entry : Option Session) : Prop :=
  ∃ session, entry = some session ∧ session.pairStream.earlyStream.isSome

omit [Codec] in
theorem begun_undisturbed {held : WrappedStream → Prop} {sid : String} {s s' : Shared}
    (h : Undisturbed held sid s s') (hs : Begun (s.sessionMap sid)) :
    Begun (s'.sessionMap sid) := by
  obtain ⟨session, hsession, hearly⟩ := hs
  obtain ⟨early, hearly⟩ := Option.isSome_iff_exists.mp hearly
  obtain ⟨session', hsession', hstays⟩ := h.some hsession
  obtain ⟨w, hw, -⟩ := hstays.early early hearly
  exact ⟨session', hsession', by rw [hw]; rfl⟩

/-- A session that has its early stream has both once a stream is put into it. -/
theorem turn_putSession_begun {held : WrappedStream → Prop} {sid : String} {w : WrappedStream}
    {myRole : Int32} (hbegun : Begun (s.sessionMap sid))
    (h : Turn node (Undisturbed held sid) .free (Node.putSession w sid myRole) s r) :
    r.answer = some () ∧ r.outputs = [] ∧ Complete (r.state.sessionMap sid) := by
  obtain ⟨s₁, hs₁, hputs⟩ := turn_putSession h
  have hbegun₁ := begun_undisturbed hs₁ hbegun
  cases hputs with
  | opened hnone s₂ hs₂ hr =>
    obtain ⟨session, hsome, -⟩ := hbegun₁
    rw [hnone] at hsome
    cases hsome
  | joined session current hsome s₂ s₃ hs₂ hs₃ hcurrent hr =>
    subst hr
    refine ⟨rfl, rfl, _, Function.update_self .., ?_⟩
    obtain ⟨session', hsome', hearly⟩ := begun_undisturbed hs₂ hbegun₁
    obtain rfl := Option.some.inj (hcurrent.symm.trans hsome')
    simp [Session.attach, Session.ready, hearly]
  | vanished session hsome s₂ hs₂ hnone =>
    obtain ⟨session', hsome', -⟩ := hs₂.some hsome
    rw [hnone] at hsome'
    cases hsome'

/-- A session that is extended is acknowledged when it has both streams, and is gone otherwise. -/
theorem turn_extendTo {held : WrappedStream → Prop} {commandId sid : String}
    (hbegun : Begun (s.sessionMap sid)) (hheard : Heard r)
    (h : Turn node (Undisturbed held sid) .free (extendTo peer sink commandId sid) s r) :
    ∃ ack, acksOf r.outputs = [⟨peer, some ack⟩] ∧ ack.commandId = commandId ∧
      (ack.result = true ↔ Complete (r.state.sessionMap sid)) := by
  rw [extendTo_eq] at h
  rcases h.bind with ⟨r₁, h₁, hfail, rfl⟩ | ⟨r₁, stream, r₂, h₁, -, h₂, rfl⟩
  · obtain ⟨o, ho⟩ := turn_offerSession (r := r₁) hheard h₁
    rw [hfail] at ho
    cases ho
  · have hsilent := acksOf_silent silent_offerSession h₁
    cases stream with
    | none =>
      obtain ⟨hacks, hclosed⟩ := turn_closeAck h₂
      refine ⟨⟨commandId, false, utf8 "new session error"⟩, ?_, rfl, ?_⟩
      · rw [Record.append, acksOf_append, hsilent, hacks]
        rfl
      · change _ ↔ Complete (r₂.state.sessionMap sid)
        rw [hclosed]
        constructor
        · rintro hfalse
          cases hfalse
        · rintro ⟨session, hsome, -⟩
          cases hsome
    | some stream =>
      have hbegun₁ : Begun (r₁.state.sessionMap sid) :=
        entry_calm (fun _ _ => begun_undisturbed) calm_offerSession h₁ hbegun
      dsimp only at h₂
      rcases h₂.bind with ⟨r₃, h₃, hfail, -⟩ | ⟨r₃, a, r₄, h₃, -, h₄, rfl⟩
      · obtain ⟨hanswer, -⟩ := turn_putSession_begun hbegun₁ h₃
        rw [hfail] at hanswer
        cases hanswer
      · obtain ⟨-, houtputs, hcomplete⟩ := turn_putSession_begun hbegun₁ h₃
        have hcalm : Calm (Node.sendAck peer ⟨commandId, true, []⟩) := ⟨trivial, fun _ => trivial⟩
        refine ⟨⟨commandId, true, []⟩, ?_, rfl, iff_of_true rfl ?_⟩
        · simp only [Record.append, acksOf_append, hsilent, houtputs, turn_sendAck h₄]
          rfl
        · have hstill : Complete (r₄.state.sessionMap sid) :=
            entry_calm (fun _ _ => complete_undisturbed) hcalm h₄ hcomplete
          exact hstill

/-- An extension is acknowledged with the outcome, if the session has its early stream. -/
theorem acknowledges_sessionExPend {held : WrappedStream → Prop}
    (htype : command.type = Cmdtype.sessionExPend.toI32)
    (hdec : Codec.decode command.data = some msg) (hsink : peerIdOfBase58 msg.peerId = some sink)
    (haccepted : ∀ session, s.sessionMap msg.sessionId = some session →
      session.pairStream.earlyStream.isSome) (hheard : Heard r)
    (h : Turn node (Undisturbed held msg.sessionId) .free
      (BuildRequest.sessionExPend peer command msg).body s r) :
    ∃ ack, acksOf r.outputs = [⟨peer, some ack⟩] ∧ ack.commandId = command.commandId ∧
      (ack.result = true ↔ Complete (r.state.sessionMap msg.sessionId)) := by
  obtain ⟨s', hs', hextends⟩ := turn_sessionExPend htype hdec hsink h
  cases hextends with
  | absent hnone hrun =>
    obtain ⟨hacks, hclosed⟩ := turn_closeAck hrun
    refine ⟨_, hacks, rfl, ?_⟩
    rw [hclosed]
    constructor
    · rintro hfalse
      cases hfalse
    · rintro ⟨session, hsome, -⟩
      cases hsome
  | ready session hsome hready hrun =>
    obtain ⟨s₁, r₁, hs₁, hspawn, rfl⟩ := turn_send hrun
    have hspawn : Turn node (Undisturbed held msg.sessionId) .free
        (sendRelayTwoway session (newRelayCircuitSuccess msg.sessionId)) s₁ r₁ := hspawn
    have hcomplete : Complete (s₁.sessionMap msg.sessionId) :=
      complete_undisturbed hs₁ ⟨session, hsome, hready⟩
    refine ⟨⟨command.commandId, true, []⟩, ?_, rfl, iff_of_true rfl ?_⟩
    · rw [Record.outputs_after, acksOf_append, acksOf_silent silent_sendRelayTwoway hspawn]
      rfl
    · have hstill : Complete (r₁.state.sessionMap msg.sessionId) :=
        entry_calm (fun _ _ => complete_undisturbed) calm_sendRelayTwoway hspawn hcomplete
      exact hstill
  | half session hsome hready hrun =>
    have hbegun : Begun (s'.sessionMap msg.sessionId) := by
      cases hs : s.sessionMap msg.sessionId with
      | none =>
        rw [hs'.none hs] at hsome
        cases hsome
      | some before => exact begun_undisturbed hs' ⟨before, hs, haccepted before hs⟩
    exact turn_extendTo hbegun hheard hrun

/-- Alone with a peer that acknowledges, a session that is there gets a later stream, and its
extension is acknowledged as a success. -/
theorem exists_extendTo {held : WrappedStream → Prop} {sid commandId : String} {session : Session}
    (hsome : s.sessionMap sid = some session) :
    ∃ r w, Turn node (Undisturbed held sid) .free (extendTo peer sink commandId sid) s r ∧ Heard r ∧
      acksOf r.outputs = [⟨peer, some ⟨commandId, true, []⟩⟩] ∧
      r.state.sessionMap sid = some (Session.attach sid SessionRole.relayRole.toI32 w (some session)) := by
  obtain ⟨n, hn⟩ := Infinite.exists_notMem_finset s.streams.toFinset
  have hrefl (s : Shared) : Undisturbed held sid s s := undisturbed_of_eq rfl
  have hw : (⟨sink, n⟩ : WrappedStream).streamId ∉ s.streams := by simpa using hn
  obtain ⟨r, hoffer, hanswer, hstate, hheard⟩ : Taken node (Undisturbed held sid) ⟨sink, n⟩
      (Node.offerSession sink sid SessionRole.sinkRole.toI32) s :=
    exists_offerSession hrefl (fun s => undisturbed_of_eq rfl) hw
  have hpresent : r.state.sessionMap sid = some session := by rw [hstate, hsome]
  let attached := r.state.setEntry sid
    (some (Session.attach sid SessionRole.relayRole.toI32 ⟨sink, n⟩ (some session)))
  let ended : TurnRecord Unit := ⟨some (), attached, [], [], []⟩
  have hput : Turn node (Undisturbed held sid) .free
      (Node.putSession ⟨sink, n⟩ sid SessionRole.relayRole.toI32) r.state ended := by
    refine .here .go (hrefl _) ?_
    simp only [hpresent, Prog.bind_eq, Prog.ret_bind, Option.isNone_some, Bool.false_eq_true,
      if_false]
    refine .here .go (hrefl _) ?_
    simp only [id, hpresent, Prog.bind_eq, Prog.ret_bind, Prog.unwrap_some]
    exact .here .go (hrefl _) rfl
  let request : NodeRequest := .ackRequest ⟨peer, some ⟨commandId, true, []⟩⟩
  let told : TurnRecord Unit := ended.after ⟨.send request, ()⟩ [.request request] []
  have hack : Turn node (Undisturbed held sid) .free (Node.sendAck peer ⟨commandId, true, []⟩)
      attached told := ⟨attached, .go, _, ended, hrefl _, trivial, rfl, rfl, rfl⟩
  refine ⟨r.append (ended.append told), ⟨sink, n⟩, ?_, ?_, ?_, ?_⟩
  · rw [extendTo_eq]
    exact hoffer.seq hanswer (hput.seq rfl hack)
  · rintro receiver hmem
    rcases List.mem_append.mp hmem with hmem | hmem
    · exact hheard receiver hmem
    · cases List.mem_singleton.mp hmem
  · rw [Record.append, acksOf_append, acksOf_silent silent_offerSession hoffer]
    rfl
  · exact Function.update_self ..

/-- A session that is not ready can be extended: it gets a later stream. -/
theorem exists_half {session : Session} (htype : command.type = Cmdtype.sessionExPend.toI32)
    (hdec : Codec.decode command.data = some msg) (hsink : peerIdOfBase58 msg.peerId = some sink)
    (hsome : s.sessionMap msg.sessionId = some session) (hready : session.ready = false) :
    ∃ r w, Serves node (.sessionExPend peer command msg) s r ∧
      acksOf r.outputs = [⟨peer, some ⟨command.commandId, true, []⟩⟩] ∧
      r.state.sessionMap msg.sessionId = some (Session.attach msg.sessionId
        SessionRole.relayRole.toI32 w (some session)) := by
  obtain ⟨r, w, hrun, hheard, hrest⟩ : ∃ r w, Turn node (Undisturbed
      (BuildRequest.sessionExPend peer command msg).Held msg.sessionId) .free
      (extendTo peer sink command.commandId msg.sessionId) s r ∧ Heard r ∧
      acksOf r.outputs = [⟨peer, some ⟨command.commandId, true, []⟩⟩] ∧
      r.state.sessionMap msg.sessionId = some (Session.attach msg.sessionId
        SessionRole.relayRole.toI32 w (some session)) := exists_extendTo hsome
  refine ⟨r, w, ⟨?_, hheard⟩, hrest⟩
  simp only [BuildRequest.body, processCmdRequest_eq htype hdec hsink, Async.getSession,
    Prog.read_bind]
  refine .here .go (undisturbed_of_eq rfl) ?_
  simp only [hsome, hready, Bool.false_eq_true, if_false]
  exact hrun

theorem exists_sessionExPend (htype : command.type = Cmdtype.sessionExPend.toI32)
    (hdec : Codec.decode command.data = some msg) (hsink : peerIdOfBase58 msg.peerId = some sink) :
    ∃ r, Serves node (.sessionExPend peer command msg) s r := by
  have hrefl (s : Shared) : Undisturbed (BuildRequest.sessionExPend peer command msg).Held
      msg.sessionId s s := undisturbed_of_eq rfl
  cases hentry : s.sessionMap msg.sessionId with
  | none =>
    have hclose : Prompt (do
        Node.handleCloseSession msg.sessionId
        Node.sendAck peer ⟨command.commandId, false, utf8 "No such session"⟩) := by
      have hack (_ : Unit) : Prompt
          (Node.sendAck peer ⟨command.commandId, false, utf8 "No such session"⟩) :=
        ⟨trivial, fun _ => trivial⟩
      exact ((handleCloseSession_prompt msg.sessionId).mono (fun _ h => h) (fun _ h => h)
        fun a _ => hack a).bind
    obtain ⟨r, hrun, hheard⟩ := exists_prompt hclose node hrefl s
    refine ⟨r, ?_, hheard⟩
    simp only [BuildRequest.body, processCmdRequest_eq htype hdec hsink, Async.getSession,
      Prog.read_bind]
    refine .here .go (hrefl s) ?_
    rw [hentry]
    exact hrun
  | some session =>
    cases hready : session.ready with
    | true =>
      have hspawn : (sendRelayTwoway session (newRelayCircuitSuccess msg.sessionId)).Within
          (fun _ => True) Instant fun _ => True := by
        unfold sendRelayTwoway
        cases session.pairStream.earlyStream <;> cases session.pairStream.laterStream
        · trivial
        · exact ⟨Or.inr ⟨_, rfl⟩, fun _ => trivial⟩
        · exact ⟨Or.inr ⟨_, rfl⟩, fun _ => trivial⟩
        · exact ⟨Or.inr ⟨_, rfl⟩, fun _ => ⟨Or.inr ⟨_, rfl⟩, fun _ => trivial⟩⟩
      have hack : Prog.Within (fun _ => True) Instant (fun _ => True) (do
          Node.sendAck peer ⟨command.commandId, true, []⟩
          sendRelayTwoway session (newRelayCircuitSuccess msg.sessionId)) :=
        ⟨Or.inl trivial, fun _ => hspawn⟩
      obtain ⟨r, hrun, hheard⟩ := exists_instant hack node hrefl s
      refine ⟨r, ?_, hheard⟩
      simp only [BuildRequest.body, processCmdRequest_eq htype hdec hsink, Async.getSession,
        Prog.read_bind]
      refine .here .go (hrefl s) ?_
      simp only [hentry, hready, if_true]
      exact hrun
    | false =>
      obtain ⟨r, w, hserves, -⟩ := exists_half htype hdec hsink hentry hready
      exact ⟨r, hserves⟩

theorem acknowledged_sessionExPend_iff (htype : command.type = Cmdtype.sessionExPend.toI32)
    (hdec : Codec.decode command.data = some msg) (hsink : peerIdOfBase58 msg.peerId = some sink) :
    Acknowledged node s (.sessionExPend peer command msg) ↔
      BuildRequest.Accepted (.sessionExPend peer command msg) (s.sessionMap msg.sessionId) := by
  constructor
  · rintro ⟨-, hall⟩ session hsome
    cases hearly : session.pairStream.earlyStream with
    | some early => rfl
    | none =>
      have hready : session.ready = false := by simp [Session.ready, hearly]
      obtain ⟨r, w, hserves, hacks, hstate⟩ : ∃ r w,
          Serves node (.sessionExPend peer command msg) s r ∧
          acksOf r.outputs = [⟨peer, some ⟨command.commandId, true, []⟩⟩] ∧
          r.state.sessionMap msg.sessionId = some (Session.attach msg.sessionId
            SessionRole.relayRole.toI32 w (some session)) :=
        exists_half htype hdec hsink hsome hready
      obtain ⟨ack, hack, -, hresult⟩ := hall r hserves
      rw [hacks] at hack
      obtain rfl : _ = ack := by simpa [BuildRequest.requester] using hack
      obtain ⟨session', hsession', hcomplete⟩ := hresult.mp rfl
      obtain rfl := Option.some.inj (hstate.symm.trans hsession')
      simp [Session.attach, Session.ready, hearly] at hcomplete
  · rintro haccepted
    constructor
    · exact exists_sessionExPend htype hdec hsink
    · rintro r ⟨hrun, hheard⟩
      exact acknowledges_sessionExPend htype hdec hsink haccepted hheard hrun

end Extensions

/-- Every request to build a circuit is acknowledged with its outcome exactly when it is accepted:
no entry node is asked to be the relay too early. That holds among all that the other tasks do but
opening and closing the session, displacing the stream that joins, and losing an
acknowledgement. -/
theorem build_request_acknowledged (node : Node) (s : Shared) (req : BuildRequest)
    (h : req.Wellformed) :
    Acknowledged node s req ↔ req.Accepted (s.sessionMap req.sessionId) := by
  cases req with
  | setSessionId stream current relay msg => exact acknowledged_setSessionId_iff h.1 h.2
  | sessionExPend peer command msg =>
    obtain ⟨htype, hdec, hpeer⟩ := h
    obtain ⟨sink, hsink⟩ := Option.isSome_iff_exists.mp hpeer
    exact acknowledged_sessionExPend_iff htype hdec hsink

end Generic

/-! ## An entry node that is asked too early -/

namespace Sample

def node : Node := ⟨(⟨.ed25519, List.replicate 32 7⟩ : Ideal.Keypair), none, none⟩

/-- The session of an entry node that has the stream of the caller only. -/
def half : Session := ⟨"session", ⟨some ⟨⟨"caller"⟩, 1⟩, none⟩, SessionRole.entryRole.toI32⟩

def state : Shared := { sessionMap := fun sid => if sid = "session" then some half else none }

def offer (role : SessionRole) : SetSessionIdMsg := ⟨"session", role.toI32⟩

def request (role : SessionRole) : BuildRequest :=
  .setSessionId ⟨⟨"access"⟩, 2⟩ none
    ⟨"frame", Relaytype.setSessionId.toI32, Codec.encode (offer role), []⟩ (offer role)

end Sample

/-- The entry node is offered the session as an access node. -/
theorem build_request_acknowledged_access :
    Acknowledged Sample.node Sample.state (Sample.request .accessRole) := by
  refine (build_request_acknowledged Sample.node Sample.state (Sample.request .accessRole)
    ⟨rfl, Codec.decode_encode _⟩).mpr ?_
  rintro session hsome
  obtain rfl := Option.some.inj hsome
  decide

/-- The entry node is asked to be the relay, and acknowledges nothing. -/
theorem not_build_request_acknowledged : (Sample.request .relayRole).Wellformed ∧
    ∃ r, Serves Sample.node (Sample.request .relayRole) Sample.state r ∧
      acksOf r.outputs = [] := by
  constructor
  · exact ⟨rfl, Codec.decode_encode _⟩
  · have hrefused : Session.isRefused (Sample.offer .relayRole) Sample.half := by decide
    exact exists_refused rfl (Codec.decode_encode _) rfl hrefused

end WhiteNoise.Building
