import WhiteNoise.Process.Alone
import WhiteNoise.Network.System

/-! # The operations on the session map

Three functions write `session_map`. Run alone, each replaces the entry of one
session by a function of the entry that was there.
-/

namespace WhiteNoise

open Wire Process

variable [Codec] [Crypto]

/-- What `new_session_to_peer` does to the session map once it is acknowledged. -/
def Node.putSession (wrapedStream : WrappedStream) (sessionId : String) (myRole : Int32) :
    Async Unit := do
  if (← Async.getSession sessionId).isNone then
    Async.insertSession sessionId ⟨sessionId, ⟨some wrapedStream, none⟩, myRole⟩
  else
    let session ← Prog.unwrap (← Async.getSession sessionId)
    Async.insertSession sessionId
      { session with pairStream := ⟨session.pairStream.earlyStream, some wrapedStream⟩ }

theorem Node.newSessionToPeer_eq (peerId : PeerId) (sessionId : String)
    (myRole otherRole : Int32) :
    Node.newSessionToPeer peerId sessionId myRole otherRole = (do
      match ← Async.newRelayStream peerId with
      | none => return none
      | some wrapedStream =>
        writeRelayWakeArc wrapedStream
        let key ← writeSetSessionWithRoleArc wrapedStream sessionId otherRole
        let receiver ← Async.registerWaiter key
        let _ack ← Async.awaitAck receiver
        Async.spawn (.relayEventHandler wrapedStream (some sessionId))
        Node.putSession wrapedStream sessionId myRole
        return some wrapedStream) := by
  unfold Node.newSessionToPeer Node.putSession
  simp only [bind_assoc]
  congr
  funext stream
  cases stream with
  | none => rfl
  | some stream =>
    dsimp only
    congr
    funext _
    congr
    funext key
    congr
    funext receiver
    congr
    funext ack
    congr
    funext _
    congr
    funext session
    cases session with
    | none => rfl
    | some session =>
      simp only [Option.isNone_some, Bool.false_eq_true, if_false, bind_assoc]

namespace Session

/-- Attach a stream to the entry of a session: the first is its early stream, any other its later
one. -/
def attach (sid : String) (role : Int32) (stream : WrappedStream) : Option Session → Session
  | none => ⟨sid, ⟨some stream, none⟩, role⟩
  | some session => { session with pairStream := ⟨session.pairStream.earlyStream, some stream⟩ }

/-- The entry node is asked to be the relay before it has both streams. -/
def isRefused (msg : SetSessionIdMsg) (session : Session) : Bool :=
  session.sessionRole = SessionRole.entryRole.toI32 ∧ msg.role = SessionRole.relayRole.toI32 ∧
    !session.ready

/-- What a `SetSessionId` message makes of the entry of its session. -/
def join (msg : SetSessionIdMsg) (stream : WrappedStream) (entry : Option Session) :
    Option Session :=
  if entry.any (isRefused msg) then none else some (attach msg.sessionId msg.role stream entry)

end Session

/-! ## Frames and requests alone -/

/-- A request that is answered at once and changes nothing at the node. -/
def Act.Quiet : Act → Prop
  | .write _ _ | .close _ | .send _ | .randomBytes => True
  | .randomBelow n => 0 < n
  | _ => False

section

variable {node : Node} {s : Shared} {cs : List Choice} {stream : WrappedStream} {relay : Relay}

theorem reply_quiet {a : Act} (ha : a.Quiet) {c : Choice} {x : Reply Shared Task Output a.Res}
    (h : (nodeSemantics node).reply a c s = some x) : x.state = s ∧ x.spawned = [] := by
  cases a with
  | write | close | send =>
    cases h
    exact ⟨rfl, rfl⟩
  | randomBelow n =>
    cases c with
    | bytes b =>
      simp only [nodeSemantics, Shared.reply] at h
      split at h
      · cases h
        exact ⟨rfl, rfl⟩
      · cases h
    | _ => cases h
  | randomBytes =>
    cases c with
    | bytes b =>
      cases h
      exact ⟨rfl, rfl⟩
    | _ => cases h
  | _ => exact ha.elim

theorem reply_of_quiet {a : Act} (ha : a.Quiet) (s : Shared) :
    ∃ c x, (nodeSemantics node).reply a c s = some x := by
  cases a with
  | write | close | send => exact ⟨.go, _, rfl⟩
  | randomBelow n => exact ⟨.bytes [], ⟨[], s, [], []⟩, if_pos ha⟩
  | randomBytes => exact ⟨.bytes [], _, rfl⟩
  | _ => exact ha.elim

/-- A program that only looks and makes quiet requests. -/
abbrev Quiet {α : Type} (p : Async α) : Prop := p.Within (fun f => f = id) Act.Quiet fun _ => True

theorem exec_quiet {α : Type} {p : Async α} (hp : Quiet p)
    {r : Reply Shared Task Output (Option α)} (h : (nodeSemantics node).exec p cs s = some r) :
    r.state = s ∧ r.spawned = [] := by
  obtain ⟨hs, -, ht, -⟩ := Semantics.exec_within (I := fun t => t = s) (O := fun _ => True)
    (P := fun _ => False) (fun f hf t ht => by rw [hf, ht]; rfl)
    (fun a ha c t x hx ht => by
      obtain ⟨hs, hsp⟩ := reply_quiet ha hx
      exact ⟨hs.trans ht, fun _ _ => trivial, by simp [hsp]⟩)
    hp rfl h
  exact ⟨hs, List.eq_nil_iff_forall_not_mem.mpr ht⟩

/-- A frame is written, and the program goes on. -/
theorem exec_writeRelayArc {α : Type} {g : String → Async α}
    {r : Reply Shared Task Output (Option α)}
    (h : (nodeSemantics node).exec (writeRelayArc stream relay >>= g) cs s = some r) :
    ∃ key b cs' r', (nodeSemantics node).exec (g key) cs' s = some r' ∧
      r = ⟨r'.answer, r'.state, .write stream b :: r'.outputs, r'.spawned⟩ := by
  obtain ⟨c, cs', x, r', rfl, hx, h', rfl⟩ := Semantics.exec_act_iff.mp h
  cases c with
  | bytes b =>
    simp only [nodeSemantics, Shared.reply] at hx
    split at hx
    · cases hx
      obtain ⟨c, cs', x, r', rfl, hx, h'', rfl⟩ := Semantics.exec_act_iff.mp h'
      cases hx
      exact ⟨_, _, _, _, h'', rfl⟩
    · cases hx
  | _ => cases hx

theorem writeRelayArc_quiet : Quiet (writeRelayArc stream relay) :=
  ⟨Nat.succ_pos _, fun _ => ⟨trivial, fun _ => trivial⟩⟩

theorem forwardRelay_quiet {session : Session} {id : ℕ} :
    Quiet (forwardRelay session id relay) := by
  have hw (w : WrappedStream) : Quiet (do let _ ← writeRelayArc w relay) :=
    Prog.Within.bind (writeRelayArc_quiet.mono (fun _ h => h) (fun _ h => h) fun _ _ => trivial)
  unfold forwardRelay
  cases session.pairStream.earlyStream with
  | none => trivial
  | some early =>
    cases session.pairStream.laterStream with
    | none =>
      simp only [Prog.unwrap_some, Prog.unwrap_none, Prog.ret_bind, Prog.fail_bind]
      split <;> trivial
    | some later =>
      simp only [Prog.unwrap_some, Prog.ret_bind]
      split
      · exact hw later
      · split
        · exact hw early
        · trivial

end

/-! ## Frames that leave the sessions alone -/

/-- A program that leaves sessions and probes alone and writes no frame in a task of its own. -/
abbrev Mild {α : Type} (p : Async α) : Prop :=
  p.Within (fun f => ∀ s, (f s).sessionMap = s.sessionMap ∧ (f s).probeMap = s.probeMap)
    (fun a => a.Quiet ∨ ∃ conn initiate sid, a = .spawn (.processHandshake conn initiate sid))
    fun _ => True

section

variable {stream : WrappedStream} {relay : Relay}

theorem forwardRelay_mild {session : Session} {id : ℕ} :
    Mild (forwardRelay session id relay) := by
  refine forwardRelay_quiet.mono ?_ (fun _ h => Or.inl h) fun _ _ => trivial
  rintro f rfl s
  exact ⟨rfl, rfl⟩

theorem handleSuccess_mild : Mild (handleSuccess stream relay) := by
  have hspawn (sid : String) (initiate : Bool) : Mild (do
      let circuitConn ← Prog.unwrap (← Async.getCircuit sid)
      Async.spawn (.processHandshake circuitConn initiate sid)) := by
    refine ⟨fun _ => ⟨rfl, rfl⟩, fun s => ?_⟩
    beta_reduce
    cases s.circuitMap sid with
    | none => trivial
    | some conn => exact ⟨Or.inr ⟨conn, initiate, sid, rfl⟩, fun _ => trivial⟩
  unfold handleSuccess
  cases (Codec.decode relay.data : Option CircuitSuccess) with
  | none => trivial
  | some m =>
    simp only [Async.getSession, Prog.read_bind]
    refine ⟨fun _ => ⟨rfl, rfl⟩, fun s => ?_⟩
    beta_reduce
    cases s.sessionMap m.sessionId with
    | none => trivial
    | some session =>
      dsimp only
      split
      · exact hspawn m.sessionId true
      · split
        · exact hspawn m.sessionId false
        · split
          · exact forwardRelay_mild
          · trivial

theorem handleRelayMsg_mild : Mild (handleRelayMsg stream relay) := by
  unfold handleRelayMsg
  cases (Codec.decode relay.data : Option RelayMsg) with
  | none => trivial
  | some m =>
    simp only [Async.getSession, Prog.read_bind]
    refine ⟨fun _ => ⟨rfl, rfl⟩, fun s => ?_⟩
    beta_reduce
    cases s.sessionMap m.sessionId with
    | none => trivial
    | some session =>
      dsimp only
      split
      · refine ⟨fun s => ?_, fun _ => trivial⟩
        beta_reduce
        cases s.circuitMap m.sessionId <;> exact ⟨rfl, rfl⟩
      · split
        · exact forwardRelay_mild
        · trivial

end

/-! ## The three operations alone -/

section

variable {node : Node} {s : Shared} {cs : List Choice} {sid : String} {w : WrappedStream}
  {r : Reply Shared Task Output (Option Unit)}

/-- A closed session has no entry in the three maps. -/
def Shared.closed (sid : String) (s : Shared) : Shared :=
  { s with
    sessionMap := Function.update s.sessionMap sid none
    circuitMap := Function.update s.circuitMap sid none
    probeMap := Function.update s.probeMap sid none }

/-- A run of the program removes the circuit and the probe. -/
def Clears (node : Node) (sid : String) (p : Async Unit) : Prop :=
  ∀ cs s r, (nodeSemantics node).exec p cs s = some r →
    r.answer = some () ∧ r.spawned = [] ∧ r.state = { s with
      circuitMap := Function.update s.circuitMap sid none
      probeMap := Function.update s.probeMap sid none }

theorem clears_removes : Clears node sid (do
    Async.removeCircuit sid
    Async.removeProbe sid) := by
  intro cs s r h
  simp only [Async.removeCircuit, Async.removeProbe, Prog.write] at h
  obtain ⟨-, rfl⟩ := Semantics.exec_ret_iff.mp h
  exact ⟨rfl, rfl, rfl⟩

theorem clears_close {p : Async Unit} (hp : Clears node sid p) :
    Clears node sid (.act (.close w) fun _ => p) := by
  intro cs s r h
  obtain ⟨c, cs', x, r', rfl, hx, h', rfl⟩ := Semantics.exec_act_iff.mp h
  cases hx
  obtain ⟨ha, hsp, hst⟩ := hp _ _ _ h'
  exact ⟨ha, by rw [hsp]; rfl, hst⟩

theorem exec_handleCloseSession
    (h : (nodeSemantics node).exec (Node.handleCloseSession sid) cs s = some r) :
    r.answer = some () ∧ r.state = s.closed sid ∧ r.spawned = [] := by
  obtain ⟨k, hk, hrest⟩ :=
    Node.handleCloseSession_rest sid (P := Clears node sid) clears_removes fun _ _ => clears_close
  rw [hk, Semantics.exec_atomic] at h
  obtain ⟨ha, hsp, hst⟩ := hrest s cs _ r h
  exact ⟨ha, hst, hsp⟩

omit [Codec] in
/-- The session is removed first; the rest of a close leaves the session map alone. -/
theorem handleCloseSession_eq (sid : String) : ∃ k : Shared → Async Unit,
    Node.handleCloseSession sid =
      .atomic (fun s => { s with sessionMap := Function.update s.sessionMap sid none }) k ∧
    ∀ s, (k s).Within (fun f => ∀ s, (f s).sessionMap = s.sessionMap) Act.Quiet fun _ => True := by
  have htail : (do
      Async.removeCircuit sid
      Async.removeProbe sid : Async Unit).Within (fun f => ∀ s, (f s).sessionMap = s.sessionMap)
        Act.Quiet fun _ => True :=
    ⟨fun _ => rfl, fun _ => ⟨fun _ => rfl, fun _ => trivial⟩⟩
  exact Node.handleCloseSession_rest sid htail fun w p hp => ⟨trivial, fun _ => hp⟩

/-- The session map with one entry replaced. -/
def Shared.setEntry (sid : String) (entry : Option Session) (s : Shared) : Shared :=
  { s with sessionMap := Function.update s.sessionMap sid entry }

theorem exec_putSession {role : Int32}
    (h : (nodeSemantics node).exec (Node.putSession w sid role) cs s = some r) :
    r = ⟨some (), s.setEntry sid (some (Session.attach sid role w (s.sessionMap sid))), [],
      []⟩ := by
  simp only [Node.putSession, Async.getSession, Prog.read_bind, Semantics.exec_atomic, id] at h
  cases hs : s.sessionMap sid with
  | none =>
    simp only [hs, Option.isNone_none, if_true, Async.insertSession, Prog.write,
      Semantics.exec_atomic] at h
    exact (Semantics.exec_ret_iff.mp h).2
  | some session =>
    simp only [hs, Option.isNone_some, Bool.false_eq_true, if_false, Semantics.exec_atomic, id,
      Prog.unwrap_some, Prog.ret_bind, Async.insertSession, Prog.write] at h
    exact (Semantics.exec_ret_iff.mp h).2

theorem exec_sendAck {peer : PeerId} {ack : Ack}
    (h : (nodeSemantics node).exec (Node.sendAck peer ack) cs s = some r) :
    r.answer = some () ∧ r.state = s ∧ r.spawned = [] := by
  obtain ⟨c, x, rfl, hx, rfl⟩ := Semantics.exec_call_iff.mp h
  cases hx
  exact ⟨rfl, rfl, rfl⟩

/-- The message closes the session or attaches the stream to it. -/
theorem exec_handleSetSession {msg : SetSessionIdMsg} {relayId : String}
    (h : (nodeSemantics node).exec (handleSetSession msg w relayId) cs s = some r) :
    r.answer = some () ∧ r.spawned = [] ∧
      r.state = match Session.join msg w (s.sessionMap msg.sessionId) with
        | none => s.closed msg.sessionId
        | some session => s.setEntry msg.sessionId (some session) := by
  simp only [handleSetSession, Async.getSession, Prog.read_bind, Semantics.exec_atomic, id] at h
  cases hs : s.sessionMap msg.sessionId with
  | none =>
    simp only [hs, Async.insertSession, Prog.write_bind, Semantics.exec_atomic] at h
    obtain ⟨ha, hst, hsp⟩ := exec_sendAck h
    exact ⟨ha, hsp, hst⟩
  | some session =>
    simp only [hs] at h
    split at h
    · next hrole =>
      split at h
      · next hready =>
        have hjoin : Session.join msg w (some session) =
            some (Session.attach msg.sessionId msg.role w (some session)) := by
          simp [Session.join, Session.isRefused, hready]
        obtain ⟨later, hlater⟩ : ∃ later, session.pairStream.laterStream = some later := by
          simp only [Session.ready, Bool.and_eq_true, Option.isSome_iff_exists] at hready
          exact hready.2
        simp only [Async.insertSession, Prog.write_bind, Semantics.exec_atomic, hlater,
          Prog.unwrap_some, Prog.ret_bind] at h
        rw [writeDisconnectArc, bind_assoc] at h
        obtain ⟨key, b, cs', r', h', rfl⟩ := exec_writeRelayArc h
        obtain ⟨c, cs', x, r', rfl, hx, h'', rfl⟩ := Semantics.exec_act_iff.mp h'
        cases hx
        obtain ⟨ha, hst, hsp⟩ := exec_sendAck h''
        rw [hjoin]
        exact ⟨ha, hsp, hst⟩
      · next hready =>
        have hjoin : Session.join msg w (some session) = none := by
          simp [Session.join, Session.isRefused, hready, hrole.1, hrole.2]
        obtain ⟨ha, hst, hsp⟩ := exec_handleCloseSession h
        rw [hjoin]
        exact ⟨ha, hsp, hst⟩
    · next hrole =>
      have hjoin : Session.join msg w (some session) =
          some (Session.attach msg.sessionId msg.role w (some session)) := by
        rw [Session.join, if_neg]
        simp only [Option.any_some, Session.isRefused, decide_eq_true_eq]
        exact fun h => hrole ⟨h.1, h.2.1⟩
      simp only [Prog.update_bind, Semantics.exec_atomic, Shared.joinSession, hs,
        Option.isSome_some, if_true] at h
      obtain ⟨ha, hst, hsp⟩ := exec_sendAck h
      rw [hjoin]
      exact ⟨ha, hsp, hst⟩

/-- A program that only makes quiet requests runs to its end alone. -/
abbrev Prompt {α : Type} (p : Async α) : Prop := p.Within (fun _ => True) Act.Quiet fun _ => True

theorem Prompt.exec {α : Type} {p : Async α} (h : Prompt p) (node : Node) (s : Shared) :
    ∃ cs r, (nodeSemantics node).exec p cs s = some r :=
  Semantics.exec_total (fun _ ha s => reply_of_quiet ha s) h s

omit [Codec] in
theorem handleCloseSession_prompt (sid : String) : Prompt (Node.handleCloseSession sid) := by
  obtain ⟨k, hk, hrest⟩ := handleCloseSession_eq sid
  rw [hk]
  exact ⟨trivial, fun s => (hrest s).mono (fun _ _ => trivial) (fun _ h => h) fun _ h => h⟩

omit [Codec] in
theorem putSession_prompt {role : Int32} : Prompt (Node.putSession w sid role) := by
  simp only [Node.putSession, Async.getSession, Prog.read_bind]
  refine ⟨trivial, fun s => ?_⟩
  beta_reduce
  cases s.sessionMap sid with
  | none => exact ⟨trivial, fun _ => trivial⟩
  | some session =>
    refine ⟨trivial, fun s => ?_⟩
    beta_reduce
    cases s.sessionMap sid with
    | none => trivial
    | some session => exact ⟨trivial, fun _ => trivial⟩

theorem handleSetSession_prompt {msg : SetSessionIdMsg} {relayId : String} :
    Prompt (handleSetSession msg w relayId) := by
  simp only [handleSetSession, Async.getSession, Prog.read_bind]
  refine ⟨trivial, fun s => ?_⟩
  beta_reduce
  cases s.sessionMap msg.sessionId with
  | none => exact ⟨trivial, fun _ => ⟨trivial, fun _ => trivial⟩⟩
  | some session =>
    dsimp only
    split
    · split
      · refine ⟨trivial, fun _ => ?_⟩
        cases session.pairStream.laterStream with
        | none => trivial
        | some later =>
          simp only [Prog.unwrap_some, Prog.ret_bind, writeDisconnectArc, bind_assoc]
          refine ⟨Nat.succ_pos _, fun _ => ⟨trivial, fun _ => ?_⟩⟩
          exact ⟨trivial, fun _ => ⟨trivial, fun _ => trivial⟩⟩
      · exact handleCloseSession_prompt _
    · refine ⟨trivial, fun s => ?_⟩
      beta_reduce
      cases s.sessionMap msg.sessionId with
      | none => trivial
      | some session => exact ⟨trivial, fun _ => trivial⟩

end

end WhiteNoise
