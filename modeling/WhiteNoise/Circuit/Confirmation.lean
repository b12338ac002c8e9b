import WhiteNoise.Network.Ideal
import WhiteNoise.Session.Operations

/-! # The confirmation of a circuit

The sink takes the second of two equal probes for the end of a circuit. It
stores the data of the first one, not the stream that brought it, so the two
have to come from the two streams of the session.
-/

namespace WhiteNoise.Confirmation

open Wire Process

section Generic

variable [Codec] [Crypto]

/-! ## Frames at a sink, one after another -/

/-- A frame on a stream, with the choices for the requests of its handler. -/
structure Arrival where
  stream : WrappedStream
  relay : Relay
  choices : List Choice

/-- A node that handles frames one after another: the session variable of the handler of each
stream (`none` once the handler has ended) and, for each session, the probes that came since it
was created. -/
structure Sink where
  shared : Shared := {}
  handlers : ℕ → Option (Option String) := fun _ => some none
  probes : String → List (ℕ × Bytes) := fun _ => []

/-- The session and the data of a frame that is a probe. -/
def probed (current : Option String) (relay : Relay) : Option (String × Bytes) :=
  if relay.type = Relaytype.probe.toI32 then
    match current, (Codec.decode relay.data : Option ProbeSignal) with
    | some sid, some probe => some (sid, probe.data)
    | _, _ => none
  else none

/-- The message of a frame that joins a session. -/
def joined (relay : Relay) : Option SetSessionIdMsg :=
  if relay.type = Relaytype.setSessionId.toI32 then Codec.decode relay.data else none

/-- Add the probe to those of its session; a session that was created or closed has none. -/
def record (s s' : Shared) (streamId : ℕ) (probe : Option (String × Bytes))
    (probes : String → List (ℕ × Bytes)) (sid : String) : List (ℕ × Bytes) :=
  if (s.sessionMap sid).isSome ∧ (s'.sessionMap sid).isSome then
    probes sid ++ ((probe.filter (·.1 = sid)).map fun p => (streamId, p.2)).toList
  else []

/-- Handle one frame. The outputs are the tasks it starts. -/
def step (node : Node) (t : Sink) (e : Arrival) : Option (Sink × List Task) :=
  match t.handlers e.stream.streamId with
  | none => none
  | some current =>
    match (nodeSemantics node).exec (relayEvent e.stream current e.relay) e.choices t.shared with
    | none => none
    | some r =>
      let handlers := Function.update t.handlers e.stream.streamId r.answer.join
      let probe := probed current e.relay
      some (⟨r.state, handlers, record t.shared r.state e.stream.streamId probe t.probes⟩,
        r.spawned)

/-- The session has two streams, and equal probes have come on both since it was created. -/
def Complete (t : Sink) (sid : String) : Prop :=
  ∃ session early later data, t.shared.sessionMap sid = some session ∧
    session.pairStream = ⟨some early, some later⟩ ∧ early.streamId ≠ later.streamId ∧
    (early.streamId, data) ∈ t.probes sid ∧ (later.streamId, data) ∈ t.probes sid

/-- A probe comes on a stream of its session, and if it is repeated the other stream has brought an
equal one. -/
def probesInTurn (t : Sink) (streamId : ℕ) (sid : String) (data : Bytes) : Bool :=
  (t.shared.sessionMap sid).all fun session =>
    session.sessionRole ≠ SessionRole.sinkRole.toI32 ∨
      session.pairStream.has streamId ∧
        ((streamId, data) ∈ t.probes sid →
          (t.probes sid).any fun p => p.1 ≠ streamId ∧ session.pairStream.has p.1 ∧ p.2 = data)

/-- No stream that has brought a probe loses its place to the stream that joins. -/
def keepsProbed (t : Sink) (stream : WrappedStream) (msg : SetSessionIdMsg) : Bool :=
  (t.shared.sessionMap msg.sessionId).all fun session =>
    session.sessionRole ≠ SessionRole.sinkRole.toI32 ∨
      (t.probes msg.sessionId).all fun p => !session.pairStream.has p.1 ||
        (Session.attach msg.sessionId msg.role stream (some session)).pairStream.has p.1

/-- What the code relies on: the frame is no stray probe, no repeated one, and takes no place of a
stream that has brought one. -/
def inTurn (t : Sink) (e : Arrival) : Bool :=
  (match (t.handlers e.stream.streamId).bind (probed · e.relay) with
    | none => true
    | some (sid, data) => probesInTurn t e.stream.streamId sid data) &&
  match joined e.relay with
    | none => true
    | some msg => keepsProbed t e.stream msg

variable {node : Node} {s : Shared} {cs : List Choice} {w : WrappedStream} {relay : Relay}
  {current : Option String} {sid : String} {t t' : Sink} {e : Arrival} {o : List Task}

/-! ## One frame -/

/-- What one frame does to the sessions and probes of the node, and which tasks it starts. -/
inductive Handled (s : Shared) (w : WrappedStream) (probe : Option (String × Bytes))
    (msg : Option SetSessionIdMsg) (s' : Shared) (o : List Task) : Prop
  | ignored (hs : s'.sessionMap = s.sessionMap) (hp : s'.probeMap = s.probeMap)
      (ho : ∀ w relay, .writeRelayArc w relay ∉ o) : Handled s w probe msg s' o
  | stored (sid : String) (data : Bytes) (session : Session) (hprobe : probe = some (sid, data))
      (hsession : s.sessionMap sid = some session)
      (hrole : session.sessionRole = SessionRole.sinkRole.toI32)
      (hs : s'.sessionMap = s.sessionMap)
      (hp : s'.probeMap = Function.update s.probeMap sid (some ⟨sid, data⟩))
      (ho : o = []) : Handled s w probe msg s' o
  | confirmed (sid : String) (data : Bytes) (session : Session) (existProbe : Probe)
      (hprobe : probe = some (sid, data)) (hsession : s.sessionMap sid = some session)
      (hrole : session.sessionRole = SessionRole.sinkRole.toI32)
      (hexist : s.probeMap sid = some existProbe) (hdata : existProbe.rand = data)
      (hs : s'.sessionMap = s.sessionMap) (hp : s'.probeMap = s.probeMap)
      (ho : ∀ t ∈ o, ∃ w, t = .writeRelayArc w (newRelayCircuitSuccess sid)) :
      Handled s w probe msg s' o
  | closed (sid : String) (hs : s'.sessionMap = Function.update s.sessionMap sid none)
      (hp : s'.probeMap = Function.update s.probeMap sid none) (ho : o = []) :
      Handled s w probe msg s' o
  | joined (m : SetSessionIdMsg) (hmsg : msg = some m)
      (hs : s'.sessionMap = Function.update s.sessionMap m.sessionId
        (some (Session.attach m.sessionId m.role w (s.sessionMap m.sessionId))))
      (hp : s'.probeMap = s.probeMap) (ho : o = []) : Handled s w probe msg s' o

variable {probe : Option (String × Bytes)} {msg : Option SetSessionIdMsg}

theorem exec_sendRelayTwoway {session : Session} {r : Reply Shared Task Output (Option Unit)}
    (h : (nodeSemantics node).exec (sendRelayTwoway session relay) cs s = some r) :
    r.state = s ∧ ∀ t ∈ r.spawned, ∃ w, t = .writeRelayArc w relay := by
  obtain ⟨id, ⟨early, later⟩, role⟩ := session
  cases early with
  | none =>
    cases later with
    | none =>
      obtain ⟨-, rfl⟩ := Semantics.exec_ret_iff.mp h
      exact ⟨rfl, by simp⟩
    | some later =>
      obtain ⟨c, x, -, hx, rfl⟩ := Semantics.exec_call_iff.mp h
      cases hx
      exact ⟨rfl, by simp⟩
  | some early =>
    obtain ⟨c, cs', x, r', -, hx, h', rfl⟩ := Semantics.exec_act_iff.mp h
    cases hx
    cases later with
    | none =>
      obtain ⟨-, rfl⟩ := Semantics.exec_ret_iff.mp h'
      exact ⟨rfl, by simp⟩
    | some later =>
      obtain ⟨c, x, -, hx, rfl⟩ := Semantics.exec_call_iff.mp h'
      cases hx
      exact ⟨rfl, by simp⟩

theorem handled_probe {r : Reply Shared Task Output (Option Unit)}
    (h : (nodeSemantics node).exec (handleRelayProbe sid w relay) cs s = some r)
    (hprobe : ∀ m : ProbeSignal, Codec.decode relay.data = some m → probe = some (sid, m.data)) :
    Handled s w probe msg r.state r.spawned := by
  unfold handleRelayProbe at h
  cases hdec : (Codec.decode relay.data : Option ProbeSignal) with
  | none =>
    rw [hdec] at h
    obtain ⟨-, rfl⟩ := Semantics.exec_fail_iff.mp h
    exact .ignored rfl rfl (by simp)
  | some m =>
    simp only [hdec, Prog.unwrap_some, Prog.ret_bind, Async.getSession, Prog.read_bind,
      Semantics.exec_atomic, id] at h
    cases hs : s.sessionMap sid with
    | none =>
      simp only [hs] at h
      obtain ⟨-, rfl⟩ := Semantics.exec_ret_iff.mp h
      exact .ignored rfl rfl (by simp)
    | some session =>
      simp only [hs] at h
      by_cases hrole : session.sessionRole = SessionRole.sinkRole.toI32
      · rw [if_pos hrole] at h
        simp only [Async.getProbe, Prog.read_bind, Semantics.exec_atomic, id] at h
        cases hp : s.probeMap sid with
        | none =>
          simp only [hp, Option.isSome_none, Bool.false_eq_true, if_false] at h
          obtain ⟨-, rfl⟩ := Semantics.exec_ret_iff.mp h
          exact .stored sid m.data session (hprobe m hdec) hs hrole rfl rfl rfl
        | some existProbe =>
          simp only [hp, Option.isSome_some, if_true, Semantics.exec_atomic, id, Prog.unwrap_some,
            Prog.ret_bind] at h
          split at h
          · next hrand =>
            obtain ⟨hst, ht⟩ := exec_sendRelayTwoway h
            rw [hst]
            exact .confirmed sid m.data session existProbe (hprobe m hdec) hs hrole hp hrand rfl rfl
              ht
          · obtain ⟨-, hst, ht⟩ := exec_handleCloseSession h
            rw [hst, ht]
            exact .closed sid rfl rfl rfl
      · rw [if_neg hrole] at h
        split at h
        · obtain ⟨hst, ht⟩ := exec_quiet forwardRelay_quiet h
          rw [hst, ht]
          exact .ignored rfl rfl (by simp)
        · obtain ⟨-, rfl⟩ := Semantics.exec_ret_iff.mp h
          exact .ignored rfl rfl (by simp)

theorem handled_setSession {s₁ : Shared} {m : SetSessionIdMsg} {relayId : String}
    {r : Reply Shared Task Output (Option Unit)} (hs₁ : s₁.sessionMap = s.sessionMap)
    (hp₁ : s₁.probeMap = s.probeMap) (hmsg : msg = some m)
    (h : (nodeSemantics node).exec (handleSetSession m w relayId) cs s₁ = some r) :
    Handled s w probe msg r.state r.spawned := by
  obtain ⟨-, ht, hst⟩ := exec_handleSetSession h
  rw [hst, ht]
  by_cases hr : (s₁.sessionMap m.sessionId).any (Session.isRefused m)
  · simp only [Session.join, if_pos hr]
    exact .closed m.sessionId (by rw [← hs₁]; rfl) (by rw [← hp₁]; rfl) rfl
  · simp only [Session.join, if_neg hr]
    exact .joined m hmsg (by rw [← hs₁]; rfl) hp₁ rfl

theorem handled_mild {p : Async Unit} {r : Reply Shared Task Output (Option Unit)} (hp : Mild p)
    (h : (nodeSemantics node).exec p cs s = some r) :
    Handled s w probe msg r.state r.spawned := by
  obtain ⟨⟨hs, hp⟩, -, ht, -⟩ := Semantics.exec_within
    (I := fun s' => s'.sessionMap = s.sessionMap ∧ s'.probeMap = s.probeMap)
    (O := fun _ => True) (P := fun t => ∀ w relay, t ≠ .writeRelayArc w relay)
    (fun f hf s' hs' => ⟨(hf s').1.trans hs'.1, (hf s').2.trans hs'.2⟩)
    (fun a ha c s' x hx hs' => by
      rcases ha with ha | ⟨conn, initiate, sid, rfl⟩
      · obtain ⟨hst, hsp⟩ := reply_quiet ha hx
        rw [hst, hsp]
        exact ⟨hs', fun _ _ => trivial, by simp⟩
      · cases hx
        exact ⟨hs', by simp, by simp⟩)
    hp ⟨rfl, rfl⟩ h
  exact .ignored hs hp fun w relay hmem => ht _ hmem w relay rfl

/-- Every frame is handled in one of these ways. -/
theorem handled_relayEvent {r : Reply Shared Task Output (Option (Option (Option String)))}
    (h : (nodeSemantics node).exec (relayEvent w current relay) cs s = some r) :
    Handled s w (probed current relay) (joined relay) r.state r.spawned := by
  by_cases hprobe : relay.type = Relaytype.probe.toI32
  · rw [relayEvent_probe hprobe] at h
    cases current with
    | none =>
      obtain ⟨-, rfl⟩ := Semantics.exec_fail_iff.mp h
      exact .ignored rfl rfl (by simp)
    | some sid =>
      obtain ⟨r₁, h₁, rfl⟩ := Semantics.exec_bind_ret h
      refine handled_probe h₁ ?_
      intro m hdec
      simp [probed, hprobe, hdec]
  by_cases hdisc : relay.type = Relaytype.disconnect.toI32
  · rw [relayEvent_disconnect hdisc] at h
    split at h
    · obtain ⟨-, rfl⟩ := Semantics.exec_ret_iff.mp h
      exact .ignored rfl rfl (by simp)
    · next m hdec =>
      obtain ⟨r₁, h₁, rfl⟩ := Semantics.exec_bind_ret h
      obtain ⟨-, hst, ht⟩ := exec_handleCloseSession h₁
      simp only [hst, ht]
      exact .closed m.sessionId rfl rfl rfl
  by_cases hset : relay.type = Relaytype.setSessionId.toI32
  · rw [relayEvent_setSessionId hset] at h
    cases hdec : (Codec.decode relay.data : Option SetSessionIdMsg) with
    | none =>
      rw [hdec] at h
      obtain ⟨-, rfl⟩ := Semantics.exec_fail_iff.mp h
      exact .ignored rfl rfl (by simp)
    | some m =>
      have hmsg : joined relay = some m := by rw [joined, if_pos hset, hdec]
      simp only [hdec, Prog.unwrap_some, Prog.ret_bind] at h
      split at h
      · simp only [addCircuitConn, Prog.write_bind, Semantics.exec_atomic] at h
        obtain ⟨r₁, h₁, rfl⟩ := Semantics.exec_bind_ret h
        refine handled_setSession ?_ ?_ hmsg h₁
        · cases s.circuitMap (current.getD m.sessionId) <;> rfl
        · cases s.circuitMap (current.getD m.sessionId) <;> rfl
      · obtain ⟨r₁, h₁, rfl⟩ := Semantics.exec_bind_ret h
        exact handled_setSession rfl rfl hmsg h₁
  by_cases hsuccess : relay.type = Relaytype.success.toI32
  · rw [relayEvent_success hsuccess] at h
    obtain ⟨r₁, h₁, rfl⟩ := Semantics.exec_bind_ret h
    exact handled_mild handleSuccess_mild h₁
  by_cases hdata : relay.type = Relaytype.data.toI32
  · rw [relayEvent_data hdata] at h
    obtain ⟨r₁, h₁, rfl⟩ := Semantics.exec_bind_ret h
    exact handled_mild handleRelayMsg_mild h₁
  have hret : relayEvent w current relay = return some current := by
    simp [relayEvent, hprobe, hdisc, hset, hsuccess, hdata]
  rw [hret] at h
  obtain ⟨-, rfl⟩ := Semantics.exec_ret_iff.mp h
  exact .ignored rfl rfl (by simp)

/-! ## Runs -/

omit [Codec] [Crypto] in
theorem has_two {pair : PairStream} {u v : ℕ} (hu : pair.has u) (hv : pair.has v) (hne : u ≠ v) :
    ∃ early later, pair = ⟨some early, some later⟩ ∧ early.streamId ≠ later.streamId ∧
      (early.streamId = u ∧ later.streamId = v ∨ early.streamId = v ∧ later.streamId = u) := by
  obtain ⟨early, later⟩ := pair
  simp only [PairStream.has, Bool.or_eq_true, Option.any_eq_true, decide_eq_true_eq] at hu hv
  rcases hu with ⟨e, he, rfl⟩ | ⟨l, hl, rfl⟩
  · rcases hv with ⟨e', he', rfl⟩ | ⟨l, hl, rfl⟩
    · obtain rfl := Option.some.inj (he.symm.trans he')
      exact absurd rfl hne
    · exact ⟨e, l, by rw [he, hl], hne, Or.inl ⟨rfl, rfl⟩⟩
  · rcases hv with ⟨e, he, rfl⟩ | ⟨l', hl', rfl⟩
    · exact ⟨e, l, by rw [he, hl], hne.symm, Or.inr ⟨rfl, rfl⟩⟩
    · obtain rfl := Option.some.inj (hl.symm.trans hl')
      exact absurd rfl hne

section

variable {s' : Shared} {id : ℕ} {probes : String → List (ℕ × Bytes)} {p : ℕ × Bytes}

omit [Codec] in
theorem mem_record (hs : (s.sessionMap sid).isSome) (hs' : (s'.sessionMap sid).isSome)
    (hp : p ∈ probes sid) : p ∈ record s s' id probe probes sid := by
  rw [record, if_pos ⟨hs, hs'⟩]
  exact List.mem_append_left _ hp

omit [Codec] in
theorem mem_record_self {data : Bytes} (hs : (s.sessionMap sid).isSome)
    (hs' : (s'.sessionMap sid).isSome) :
    (id, data) ∈ record s s' id (some (sid, data)) probes sid := by
  rw [record, if_pos ⟨hs, hs'⟩]
  exact List.mem_append_right _ (by simp)

end

/-- A stored probe belongs to a session of the sink and came on one of its streams. -/
def Stored (t : Sink) : Prop :=
  ∀ sid probe, t.shared.probeMap sid = some probe →
    ∃ session u, t.shared.sessionMap sid = some session ∧
      session.sessionRole = SessionRole.sinkRole.toI32 ∧ session.pairStream.has u ∧
      (u, probe.rand) ∈ t.probes sid

theorem step_eq_some (h : step node t e = some (t', o)) :
    ∃ current r, t.handlers e.stream.streamId = some current ∧
      (nodeSemantics node).exec (relayEvent e.stream current e.relay) e.choices t.shared = some r ∧
      t'.shared = r.state ∧ o = r.spawned ∧ t'.probes = record t.shared r.state e.stream.streamId
        (probed current e.relay) t.probes := by
  unfold step at h
  split at h
  · cases h
  · next current hc =>
    split at h
    · cases h
    · next r hr =>
      obtain ⟨rfl, rfl⟩ := Prod.mk.inj (Option.some.inj h)
      exact ⟨current, r, hc, hr, rfl, rfl, rfl⟩

/-- What the condition on a frame says about its handler. -/
theorem inTurn_iff (hc : t.handlers e.stream.streamId = some current) :
    inTurn t e ↔
      (∀ sid data, probed current e.relay = some (sid, data) →
        probesInTurn t e.stream.streamId sid data) ∧
      ∀ msg, joined e.relay = some msg → keepsProbed t e.stream msg := by
  simp only [inTurn, hc, Option.bind_some, Bool.and_eq_true]
  refine and_congr ?_ ?_
  · cases probed current e.relay with
    | none => simp
    | some p =>
      obtain ⟨sid, data⟩ := p
      simp
  · cases joined e.relay with
    | none => simp
    | some m => simp

omit [Codec] in
/-- Another stream of the session has brought a probe that equals the stored one. -/
theorem exists_other_probe {sid : String} {session : Session} {p : Probe} {streamId : ℕ}
    (h : Stored t) (hsession : t.shared.sessionMap sid = some session)
    (hp : t.shared.probeMap sid = some p)
    (hrepeat : (streamId, p.rand) ∈ t.probes sid → (t.probes sid).any fun x =>
      x.1 ≠ streamId ∧ session.pairStream.has x.1 ∧ x.2 = p.rand) :
    ∃ v, v ≠ streamId ∧ session.pairStream.has v ∧ (v, p.rand) ∈ t.probes sid := by
  by_cases hmem : (streamId, p.rand) ∈ t.probes sid
  · obtain ⟨⟨v, d⟩, hvd, hany⟩ := List.any_eq_true.mp (hrepeat hmem)
    obtain ⟨hne, hhas, rfl⟩ := of_decide_eq_true hany
    exact ⟨v, hne, hhas, hvd⟩
  · obtain ⟨session', v, hsession', -, hv, hseen⟩ := h sid p hp
    obtain rfl := Option.some.inj (hsession.symm.trans hsession')
    refine ⟨v, ?_, hv, hseen⟩
    rintro rfl
    exact hmem hseen

omit [Codec] in
theorem probesInTurn_iff {session : Session} {streamId : ℕ} {sid : String} {data : Bytes}
    (hsession : t.shared.sessionMap sid = some session)
    (hrole : session.sessionRole = SessionRole.sinkRole.toI32) :
    probesInTurn t streamId sid data ↔ session.pairStream.has streamId ∧
      ((streamId, data) ∈ t.probes sid → (t.probes sid).any fun p =>
        p.1 ≠ streamId ∧ session.pairStream.has p.1 ∧ p.2 = data) := by
  simp only [probesInTurn, hsession, Option.all_some, hrole, ne_eq, not_true_eq_false, false_or,
    decide_eq_true_eq]

/-- A frame in turn keeps the stored probes, and a circuit it confirms is complete. -/
theorem handled_stored (h : Stored t)
    (hprobe : ∀ sid data, probe = some (sid, data) → probesInTurn t w.streamId sid data)
    (hmsg : ∀ m, msg = some m → keepsProbed t w m) (hh : Handled t.shared w probe msg t'.shared o)
    (hr : t'.probes = record t.shared t'.shared w.streamId probe t.probes) :
    Stored t' ∧ ∀ u sid, .writeRelayArc u (newRelayCircuitSuccess sid) ∈ o → Complete t' sid := by
  -- a stored probe stays where its session keeps the stream that brought it
  have hkeep {sid : String} {p : Probe} (hp : t.shared.probeMap sid = some p)
      (hs : t'.shared.sessionMap sid = t.shared.sessionMap sid) :
      ∃ session u, t'.shared.sessionMap sid = some session ∧
        session.sessionRole = SessionRole.sinkRole.toI32 ∧ session.pairStream.has u ∧
        (u, p.rand) ∈ t'.probes sid := by
    obtain ⟨session, u, hsession, hrole, hu, hmem⟩ := h sid p hp
    refine ⟨session, u, hs.trans hsession, hrole, hu, ?_⟩
    rw [hr]
    exact mem_record (by simp [hsession]) (by simp [hs, hsession]) hmem
  have hnone (ho : o = []) (u : WrappedStream) (sid : String)
      (hmem : .writeRelayArc u (newRelayCircuitSuccess sid) ∈ o) : Complete t' sid := by
    rw [ho] at hmem
    exact absurd hmem List.not_mem_nil
  cases hh with
  | ignored hs hp ho =>
    refine ⟨?_, fun u sid hmem => absurd hmem (ho u _)⟩
    intro sid p hsp
    rw [hp] at hsp
    exact hkeep hsp (by rw [hs])
  | stored sid data session hpr hsession hrole hs hp ho =>
    refine ⟨?_, hnone ho⟩
    intro x p hx
    rw [hp] at hx
    by_cases hxs : x = sid
    · subst hxs
      rw [Function.update_self] at hx
      obtain rfl := Option.some.inj hx
      have hturn := (probesInTurn_iff hsession hrole).mp (hprobe x data hpr)
      refine ⟨session, w.streamId, by rw [hs, hsession], hrole, hturn.1, ?_⟩
      rw [hr, hpr]
      exact mem_record_self (by simp [hsession]) (by simp [hs, hsession])
    · rw [Function.update_of_ne hxs] at hx
      exact hkeep hx (by rw [hs])
  | confirmed sid data session existProbe hpr hsession hrole hexist hdata hs hp ho =>
    constructor
    · intro x p hx
      rw [hp] at hx
      exact hkeep hx (by rw [hs])
    · intro u x hmem
      obtain ⟨w', heq⟩ := ho _ hmem
      obtain rfl : x = sid := by
        have hrel := congrArg Relay.data (Task.writeRelayArc.inj heq).2
        exact congrArg CircuitSuccess.sessionId (Codec.encode_injective hrel)
      obtain ⟨hw, hrepeat⟩ := (probesInTurn_iff hsession hrole).mp (hprobe x data hpr)
      subst hdata
      obtain ⟨v, hvw, hv, hseen⟩ := exists_other_probe h hsession hexist hrepeat
      have hboth : (v, existProbe.rand) ∈ t'.probes x ∧
          (w.streamId, existProbe.rand) ∈ t'.probes x := by
        rw [hr, hpr]
        have hs₁ : (t.shared.sessionMap x).isSome := by simp [hsession]
        have hs₂ : (t'.shared.sessionMap x).isSome := by simp [hs, hsession]
        exact ⟨mem_record hs₁ hs₂ hseen, mem_record_self hs₁ hs₂⟩
      obtain ⟨early, later, hpair, hne, ⟨hev, hlw⟩ | ⟨hew, hlv⟩⟩ := has_two hv hw hvw
      · exact ⟨session, early, later, _, by rw [hs, hsession], hpair, hne, hev ▸ hboth.1,
          hlw ▸ hboth.2⟩
      · exact ⟨session, early, later, _, by rw [hs, hsession], hpair, hne, hew ▸ hboth.2,
          hlv ▸ hboth.1⟩
  | closed sid hs hp ho =>
    refine ⟨?_, hnone ho⟩
    intro x p hx
    rw [hp] at hx
    by_cases hxs : x = sid
    · rw [hxs, Function.update_self] at hx
      cases hx
    · rw [Function.update_of_ne hxs] at hx
      exact hkeep hx (by rw [hs, Function.update_of_ne hxs])
  | joined m hm hs hp ho =>
    refine ⟨?_, hnone ho⟩
    intro x p hx
    rw [hp] at hx
    by_cases hxm : x = m.sessionId
    · subst hxm
      obtain ⟨session, u, hsession, hrole, hu, hmem⟩ := h _ p hx
      have hkept := hmsg m hm
      simp only [keepsProbed, hsession, Option.all_some, hrole, ne_eq, not_true_eq_false,
        false_or, List.all_eq_true, Bool.or_eq_true, Bool.not_eq_true', decide_eq_true_eq] at hkept
      have hs' : t'.shared.sessionMap m.sessionId =
          some (Session.attach m.sessionId m.role w (some session)) := by
        rw [hs, Function.update_self, hsession]
      refine ⟨_, u, hs', hrole, ?_, ?_⟩
      · rcases hkept _ hmem with hu' | hu'
        · rw [hu] at hu'
          cases hu'
        · exact hu'
      · rw [hr]
        exact mem_record (by simp [hsession]) (by simp [hs']) hmem
    · exact hkeep hx (by rw [hs, Function.update_of_ne hxm])

theorem step_stored (h : Stored t) (hturn : inTurn t e) (hs : step node t e = some (t', o)) :
    Stored t' ∧ ∀ u sid, .writeRelayArc u (newRelayCircuitSuccess sid) ∈ o → Complete t' sid := by
  obtain ⟨current, r, hc, hr, hst, rfl, hp⟩ := step_eq_some hs
  obtain ⟨hprobe, hmsg⟩ := (inTurn_iff hc).mp hturn
  have hh := handled_relayEvent hr
  rw [← hst] at hh hp
  exact handled_stored h hprobe hmsg hh hp

end Generic

/-- While the probes come in turn, a success is sent only for a complete circuit. -/
theorem success_complete [Codec] [Crypto] (node : Node) {t t' t'' : Sink} {es : List Arrival}
    {e : Arrival} {os o : List Task} (h₀ : t.shared.probeMap = fun _ => none)
    (hC : Meets (fun t e => inTurn t e = true) (step node) t (es ++ [e]))
    (h : run (step node) t es = some (t', os)) (he : step node t' e = some (t'', o))
    {w : WrappedStream} {sid : String} (ho : .writeRelayArc w (newRelayCircuitSuccess sid) ∈ o) :
    Complete t'' sid := by
  have hst : Stored t' :=
    run_induction_meets (P := fun _ t _ => Stored t) (by intro sid p hp; rw [h₀] at hp; cases hp)
      (fun _ _ _ _ _ _ hi hturn hs => (step_stored hi hturn hs).1) hC.of_concat h
  exact (step_stored hst (hC es e [] t' os rfl h) he).2 w sid ho

/-! ## A probe that comes twice on one stream -/

namespace Sample

def node : Node := ⟨(⟨.ed25519, List.replicate 32 7⟩ : Ideal.Keypair), none, none⟩

def stream (n : ℕ) : WrappedStream := ⟨⟨"peer"⟩, n⟩

/-- The stream joins the session as one of the sink. -/
def join (n : ℕ) : Arrival :=
  ⟨stream n, newRelay .setSessionId
    (Codec.encode (⟨"session", SessionRole.sinkRole.toI32⟩ : SetSessionIdMsg)), [.go]⟩

/-- A probe on the stream, with the choices for the successes it may cause. -/
def probe (n : ℕ) (cs : List Choice) : Arrival :=
  ⟨stream n, newRelay .probe (Codec.encode (⟨"session", [7]⟩ : ProbeSignal)), cs⟩

def success (n : ℕ) : Task := .writeRelayArc (stream n) (newRelayCircuitSuccess "session")

/-- Both streams join, and one brings its probe. -/
def arrivals : List Arrival := [join 0, join 1, probe 0 []]

end Sample

theorem success_complete_once :
    ∃ t os t' o, run (step Sample.node) {} Sample.arrivals = some (t, os) ∧
      step Sample.node t (Sample.probe 1 [.go, .go]) = some (t', o) ∧
      Sample.success 0 ∈ o ∧ Complete t' "session" := by
  have hturn : Meets (fun t e => inTurn t e = true) (step Sample.node) {}
      (Sample.arrivals ++ [Sample.probe 1 [.go, .go]]) := Meets.of_meets (by decide +kernel)
  refine ⟨_, _, _, _, rfl, rfl, List.mem_cons_self, ?_⟩
  exact success_complete (t := {}) Sample.node rfl hturn rfl rfl List.mem_cons_self

/-- A probe that is repeated on the only stream of the session confirms the circuit. -/
theorem not_complete_repeated :
    ∃ t os t' o, run (step Sample.node) {} [Sample.join 0, Sample.probe 0 []] = some (t, os) ∧
      step Sample.node t (Sample.probe 0 [.go]) = some (t', o) ∧
      Sample.success 0 ∈ o ∧ ¬ Complete t' "session" := by
  refine ⟨_, _, _, _, rfl, rfl, List.mem_cons_self, ?_⟩
  rintro ⟨session, early, later, data, hs, hpair, -⟩
  obtain rfl := Option.some.inj hs
  cases hpair

end WhiteNoise.Confirmation
