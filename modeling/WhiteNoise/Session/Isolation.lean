import WhiteNoise.Network.Ideal
import WhiteNoise.Session.Operations

/-! # Frames for a session from a stream that is not its own

Only forwarding compares the stream of a frame with the streams of the session
it names. Where a node acts on a frame itself, any stream will do.
-/

namespace WhiteNoise.Isolation

open Wire Process

section Generic

variable [Codec] [Crypto]

/-- The frames that act on a session. -/
inductive Kind where
  | data | success | disconnect | probe
  deriving DecidableEq

/-- The frame names the session; a probe is under the session of its handler. -/
inductive Addressed (current : Option String) (relay : Relay) (x : String) : Kind → Prop
  | data (msg : RelayMsg) (htype : relay.type = Relaytype.data.toI32)
      (hdec : Codec.decode relay.data = some msg) (hx : msg.sessionId = x) :
      Addressed current relay x .data
  | success (msg : CircuitSuccess) (htype : relay.type = Relaytype.success.toI32)
      (hdec : Codec.decode relay.data = some msg) (hx : msg.sessionId = x) :
      Addressed current relay x .success
  | disconnect (msg : Disconnect) (htype : relay.type = Relaytype.disconnect.toI32)
      (hdec : Codec.decode relay.data = some msg) (hx : msg.sessionId = x) :
      Addressed current relay x .disconnect
  | probe (htype : relay.type = Relaytype.probe.toI32) (hx : current = some x) :
      Addressed current relay x .probe

/-- Nothing is pushed into the circuit of the session, nothing is written to its streams and they
are not closed, no handshake is started for it, and it is still there. -/
structure NoEffect {α : Type} (s : Shared) (x : String) (session : Session)
    (r : Reply Shared Task Output α) : Prop where
  channel : ∀ conn, s.circuitMap x = some conn →
    r.state.channels conn.inChannel = s.channels conn.inChannel
  writes : ∀ w b, .write w b ∈ r.outputs → session.pairStream.has w.streamId = false
  closes : ∀ w, .close w ∈ r.outputs → session.pairStream.has w.streamId = false
  spawned : ∀ w relay, .writeRelayArc w relay ∈ r.spawned →
    session.pairStream.has w.streamId = false
  handshake : ∀ conn initiate, .processHandshake conn initiate x ∉ r.spawned
  stored : r.state.sessionMap x = some session

/-- However the requests are answered, handling the frame has no effect on the session. -/
def Isolated (node : Node) (s : Shared) (x : String) (session : Session) (w : WrappedStream)
    (current : Option String) (relay : Relay) : Prop :=
  ∀ cs r, (nodeSemantics node).exec (relayEvent w current relay) cs s = some r →
    NoEffect s x session r

/-- This node is an end of the session and has its circuit. -/
def isEnd (s : Shared) (x : String) (session : Session) : Bool :=
  (session.sessionRole = SessionRole.callerRole.toI32 ∨
    session.sessionRole = SessionRole.answerRole.toI32) ∧ (s.circuitMap x).isSome

/-- The node only forwards frames of the kind, or it has nothing to act on. -/
def Forwards (s : Shared) (x : String) (session : Session) (relay : Relay) : Kind → Prop
  | .data | .success => isEnd s x session = false
  | .disconnect => False
  | .probe =>
    session.sessionRole = SessionRole.sinkRole.toI32 →
      ∀ probe, (Codec.decode relay.data : Option ProbeSignal) = some probe →
        ∀ stored, s.probeMap x = some stored →
          stored.rand = probe.data ∧ session.pairStream = ⟨none, none⟩

variable {node : Node} {s : Shared} {x : String} {session : Session} {w : WrappedStream}
  {current : Option String} {relay : Relay}

omit [Codec] in
theorem NoEffect.same {α : Type} (a : α) (h : s.sessionMap x = some session) :
    NoEffect s x session ⟨a, s, [], []⟩ where
  channel _ _ := rfl
  writes _ _ h := nomatch h
  closes _ h := nomatch h
  spawned _ _ h := nomatch h
  handshake _ _ h := nomatch h
  stored := h

/-- A session is not forwarded from a stream that is not its own. -/
theorem forwardRelay_foreign (hw : session.pairStream.has w.streamId = false)
    (hready : session.ready) : forwardRelay session w.streamId relay = .ret () := by
  simp only [Session.ready, Bool.and_eq_true, Option.isSome_iff_exists] at hready
  obtain ⟨⟨early, he⟩, later, hl⟩ := hready
  simp only [PairStream.has, he, hl, Option.any_some, Bool.or_eq_false_iff,
    decide_eq_false_iff_not] at hw
  simp [forwardRelay, he, hl, hw.1, hw.2]

/-- A frame that is only forwarded has no effect. -/
theorem noEffect_forward {α : Type} {a : α} {cs : List Choice}
    {r : Reply Shared Task Output (Option α)} (hs : s.sessionMap x = some session)
    (hw : session.pairStream.has w.streamId = false)
    (h : (nodeSemantics node).exec
      ((if session.ready then forwardRelay session w.streamId relay else pure ()) >>= fun _ =>
        pure a) cs s = some r) : NoEffect s x session r := by
  split at h
  · next hready =>
    rw [forwardRelay_foreign hw hready] at h
    obtain ⟨-, rfl⟩ := Semantics.exec_ret_iff.mp h
    exact .same _ hs
  · obtain ⟨-, rfl⟩ := Semantics.exec_ret_iff.mp h
    exact .same _ hs

theorem data_iff (hs : s.sessionMap x = some session)
    (hw : session.pairStream.has w.streamId = false) (htype : relay.type = Relaytype.data.toI32)
    {msg : RelayMsg} (hdec : Codec.decode relay.data = some msg) (hx : msg.sessionId = x) :
    Isolated node s x session w current relay ↔ isEnd s x session = false := by
  subst hx
  simp only [Isolated, relayEvent_data htype, handleRelayMsg, hdec, Async.getSession,
    Prog.read_bind, Prog.atomic_bind, Semantics.exec_atomic, id, hs]
  by_cases hrole : session.sessionRole = SessionRole.answerRole.toI32 ∨
      session.sessionRole = SessionRole.callerRole.toI32
  · simp only [if_pos hrole, pushData, Prog.write_bind, Semantics.exec_atomic]
    cases hc : s.circuitMap msg.sessionId with
    | none =>
      refine iff_of_true ?_ (by simp [isEnd, hc])
      intro cs r h
      obtain ⟨-, rfl⟩ := Semantics.exec_ret_iff.mp h
      exact .same _ hs
    | some conn =>
      refine iff_of_false ?_ (by simp [isEnd, hc, hrole.symm])
      intro h
      have hpush := (h [] _ rfl).channel conn hc
      simp at hpush
  · refine iff_of_true ?_ (by simp [isEnd, mt Or.symm hrole])
    intro cs r h
    rw [if_neg hrole] at h
    exact noEffect_forward hs hw h

/-- The handshake of a session that this node is an end of is started, if there is a circuit. -/
theorem start_iff {initiate : Bool} (hs : s.sessionMap x = some session) :
    (∀ cs r, (nodeSemantics node).exec (do
        let circuitConn ← Prog.unwrap (s.circuitMap x)
        Async.spawn (.processHandshake circuitConn initiate x)
        return some current) cs s = some r → NoEffect s x session r) ↔
      s.circuitMap x = none := by
  cases hc : s.circuitMap x with
  | none =>
    refine iff_of_true ?_ rfl
    intro cs r h
    obtain ⟨-, rfl⟩ := Semantics.exec_fail_iff.mp h
    exact .same _ hs
  | some conn =>
    refine iff_of_false ?_ nofun
    intro h
    exact (h [.go] _ rfl).handshake conn initiate List.mem_cons_self

theorem success_iff (hs : s.sessionMap x = some session)
    (hw : session.pairStream.has w.streamId = false) (htype : relay.type = Relaytype.success.toI32)
    {msg : CircuitSuccess} (hdec : Codec.decode relay.data = some msg) (hx : msg.sessionId = x) :
    Isolated node s x session w current relay ↔ isEnd s x session = false := by
  subst hx
  simp only [Isolated, relayEvent_success htype, handleSuccess, hdec, Async.getSession,
    Async.getCircuit, Prog.read_bind, Prog.atomic_bind, Semantics.exec_atomic, id, hs]
  by_cases hcaller : session.sessionRole = SessionRole.callerRole.toI32
  · rw [show isEnd s msg.sessionId session = false ↔ s.circuitMap msg.sessionId = none by
      simp [isEnd, hcaller]]
    simp only [if_pos hcaller, Prog.atomic_bind, Semantics.exec_atomic, id, bind_assoc]
    exact start_iff hs
  · by_cases hanswer : session.sessionRole = SessionRole.answerRole.toI32
    · rw [show isEnd s msg.sessionId session = false ↔ s.circuitMap msg.sessionId = none by
        simp [isEnd, hanswer]]
      simp only [if_neg hcaller, if_pos hanswer, Prog.atomic_bind, Semantics.exec_atomic, id,
        bind_assoc]
      exact start_iff hs
    · refine iff_of_true ?_ (by simp [isEnd, hcaller, hanswer])
      intro cs r h
      rw [if_neg hcaller, if_neg hanswer] at h
      exact noEffect_forward hs hw h

/-- A session that is closed is not there any more. -/
theorem not_isolated_close {α : Type} {g : Unit → Async α} {a : α} (hg : g () = .ret a) :
    ¬ ∀ cs r, (nodeSemantics node).exec (Node.handleCloseSession x >>= g) cs s = some r →
      NoEffect s x session r := by
  intro h
  obtain ⟨cs, r, hr⟩ := (handleCloseSession_prompt x).exec node s
  obtain ⟨ha, hst, -⟩ := exec_handleCloseSession hr
  have hrest : (nodeSemantics node).exec (g ()) [] r.state = some ⟨some a, r.state, [], []⟩ := by
    rw [hg]
    rfl
  have hstored := (h cs _ (Semantics.exec_bind_iff.mpr
    (Or.inr ⟨cs, [], r, (), _, by simp, hr, ha, hrest, rfl⟩))).stored
  rw [show _ = s.closed x from hst] at hstored
  simp [Shared.closed] at hstored

theorem disconnect_not (htype : relay.type = Relaytype.disconnect.toI32) {msg : Disconnect}
    (hdec : Codec.decode relay.data = some msg) (hx : msg.sessionId = x) :
    ¬ Isolated node s x session w current relay := by
  subst hx
  simp only [Isolated, relayEvent_disconnect htype, hdec]
  exact not_isolated_close rfl

theorem exec_insertProbe {α : Type} {probe : Probe} {a : α} {cs : List Choice}
    {r : Reply Shared Task Output (Option α)}
    (h : (nodeSemantics node).exec (do
      Async.insertProbe x probe
      return a) cs s = some r) :
    r = ⟨some a, { s with probeMap := Function.update s.probeMap x (some probe) }, [], []⟩ :=
  (Semantics.exec_ret_iff.mp h).2

/-- A session with a stream is confirmed on it. -/
theorem twoway_iff {success : Relay} (hs : s.sessionMap x = some session) :
    (∀ cs r, (nodeSemantics node).exec (do
        sendRelayTwoway session success
        return some current) cs s = some r → NoEffect s x session r) ↔
      session.pairStream = ⟨none, none⟩ := by
  obtain ⟨id, ⟨early, later⟩, role⟩ := session
  cases early with
  | none =>
    cases later with
    | none =>
      refine iff_of_true ?_ rfl
      intro cs r h
      obtain ⟨-, rfl⟩ := Semantics.exec_ret_iff.mp h
      exact .same _ hs
    | some later =>
      refine iff_of_false ?_ (by simp)
      intro h
      have hw := (h [.go] _ rfl).spawned later success List.mem_cons_self
      simp [PairStream.has] at hw
  | some early =>
    refine iff_of_false ?_ (by simp)
    intro h
    cases later with
    | none =>
      have hw := (h [.go] _ rfl).spawned early success List.mem_cons_self
      simp [PairStream.has] at hw
    | some later =>
      have hw := (h [.go, .go] _ rfl).spawned early success List.mem_cons_self
      simp [PairStream.has] at hw

theorem probe_iff (hs : s.sessionMap x = some session)
    (hw : session.pairStream.has w.streamId = false)
    (htype : relay.type = Relaytype.probe.toI32) (hx : current = some x) :
    Isolated node s x session w current relay ↔ Forwards s x session relay .probe := by
  subst hx
  simp only [Isolated, relayEvent_probe htype, handleRelayProbe, Prog.unwrap_some, Prog.ret_bind,
    Forwards]
  cases hdec : (Codec.decode relay.data : Option ProbeSignal) with
  | none =>
    refine iff_of_true ?_ (fun _ _ h => by cases h)
    intro cs r h
    obtain ⟨-, rfl⟩ := Semantics.exec_fail_iff.mp h
    exact .same _ hs
  | some probe =>
    simp only [Prog.unwrap_some, Prog.ret_bind, Async.getSession, Prog.read_bind, Prog.atomic_bind,
      Semantics.exec_atomic, id, hs, Option.some.injEq, forall_eq']
    by_cases hrole : session.sessionRole = SessionRole.sinkRole.toI32
    · rw [forall_prop_of_true hrole]
      simp only [if_pos hrole, Async.getProbe, Prog.read_bind, Prog.atomic_bind,
        Semantics.exec_atomic, id]
      cases hp : s.probeMap x with
      | none =>
        refine iff_of_true ?_ (fun _ h => by cases h)
        intro cs r h
        obtain rfl := exec_insertProbe h
        exact ⟨fun _ _ => rfl, fun _ _ h => (by cases h), fun _ h => (by cases h),
          fun _ _ h => (by cases h), fun _ _ h => (by cases h), hs⟩
      | some stored =>
        simp only [Option.isSome_some, if_true, Prog.atomic_bind, Semantics.exec_atomic, id, hp,
          Prog.unwrap_some, Prog.ret_bind, Option.some.injEq, forall_eq']
        by_cases hrand : stored.rand = probe.data
        · simp only [if_pos hrand]
          rw [twoway_iff hs]
          exact (and_iff_right hrand).symm
        · simp only [if_neg hrand]
          exact iff_of_false (not_isolated_close rfl) (fun h => hrand h.1)
    · refine iff_of_true ?_ (fun h => absurd h hrole)
      intro cs r h
      rw [if_neg hrole] at h
      exact noEffect_forward hs hw h

/-- A frame from another stream has no effect on a session exactly when the node has nothing to do
for it but to forward it. -/
theorem isolated_iff (node : Node) (hs : s.sessionMap x = some session)
    (hw : session.pairStream.has w.streamId = false) {kind : Kind}
    (h : Addressed current relay x kind) :
    Isolated node s x session w current relay ↔ Forwards s x session relay kind := by
  cases h with
  | data msg htype hdec hx => exact data_iff hs hw htype hdec hx
  | success msg htype hdec hx => exact success_iff hs hw htype hdec hx
  | disconnect msg htype hdec hx => exact iff_of_false (disconnect_not htype hdec hx) id
  | probe htype hx => exact probe_iff hs hw htype hx

end Generic

/-! ## A stray stream at a relay node and at a caller -/

namespace Sample

def node : Node := ⟨(⟨.ed25519, List.replicate 32 7⟩ : Ideal.Keypair), none, none⟩

def stream (n : ℕ) : WrappedStream := ⟨⟨"peer"⟩, n⟩

def relaying : Session :=
  ⟨"session", ⟨some (stream 0), some (stream 1)⟩, SessionRole.relayRole.toI32⟩

def calling : Session := ⟨"session", ⟨some (stream 0), none⟩, SessionRole.callerRole.toI32⟩

def shared (session : Session) : Shared where
  sessionMap sid := if sid = "session" then some session else none
  circuitMap sid := if sid = "session" then some ⟨"session", stream 0, 0, some 0⟩ else none

def msg : RelayMsg := ⟨"session", [0, 1, 7]⟩

def frame : Relay := newRelay .data (Codec.encode msg)

end Sample

theorem isolated_relaying :
    Isolated Sample.node (Sample.shared Sample.relaying) "session" Sample.relaying
      (Sample.stream 2) none Sample.frame :=
  (isolated_iff (s := Sample.shared Sample.relaying) Sample.node rfl rfl
    (.data Sample.msg rfl (Codec.decode_encode _) rfl)).mpr
      (show isEnd _ _ _ = false by decide)

/-- At the caller, data from any stream that names the session goes into its circuit. -/
theorem not_isolated_calling :
    ¬ Isolated Sample.node (Sample.shared Sample.calling) "session" Sample.calling
      (Sample.stream 2) none Sample.frame := by
  intro h
  have hdec : (Codec.decode Sample.frame.data : Option RelayMsg) = some Sample.msg :=
    Codec.decode_encode _
  have hdata : Sample.frame.type = Relaytype.data.toI32 := rfl
  have hend := (data_iff (s := Sample.shared Sample.calling) rfl rfl hdata hdec rfl).mp h
  exact absurd hend (by decide)

end WhiteNoise.Isolation
