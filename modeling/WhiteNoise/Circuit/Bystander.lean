import WhiteNoise.Circuit.Place
import WhiteNoise.Network.Connection

/-! # Tasks of other sessions keep away from a path

No function of the code mixes two sessions: what it looks up for one session it
writes and stores for that session, new streams, channels and transports are
fresh, and so a thread that serves other sessions leaves the path alone at each
of its operations and starts only threads that do so.
-/

namespace WhiteNoise

open Wire Process

variable [Codec] [Crypto]

namespace Place

variable {place : Place} {s s' : Shared} {α β : Type}

/-! ## Updates -/

/-- The update is about another session and stores nothing of the path for it. -/
def UpdateApart (place : Place) (s : Shared) : Update → Prop
  | .session x f =>
    x ≠ place.sid ∧ ∀ session, f (s.sessionMap x) = some session → place.SessionApart session
  | .circuit x conn => x ≠ place.sid ∧ ∀ c, conn = some c → place.ConnApart c
  | .addCircuit x stream => x ≠ place.sid ∧ place.guards stream.streamId = false
  | .data x _ => x ≠ place.sid
  | _ => True

theorem Settled.update_session (h : place.Settled s) {x : String} {f : Option Session → Option Session}
    (hu : place.UpdateApart s (.session x f)) :
    place.Settled ((Update.session x f).apply s) where
  __ := h
  session := by simpa only [Update.apply, Function.update_of_ne hu.1.symm] using h.session
  sessions y session hy hs := by
    simp only [Update.apply] at hs
    by_cases hxy : y = x
    · subst hxy
      rw [Function.update_self] at hs
      exact hu.2 session hs
    · rw [Function.update_of_ne hxy] at hs
      exact h.sessions y session hy hs

theorem Settled.update_circuit (h : place.Settled s) {x : String} {conn : Option CircuitConn}
    (hu : place.UpdateApart s (.circuit x conn)) :
    place.Settled ((Update.circuit x conn).apply s) where
  __ := h
  circuit := by simpa only [Update.apply, Function.update_of_ne hu.1.symm] using h.circuit
  circuits y c hy hs := by
    simp only [Update.apply] at hs
    by_cases hxy : y = x
    · subst hxy
      rw [Function.update_self] at hs
      exact hu.2 c hs
    · rw [Function.update_of_ne hxy] at hs
      exact h.circuits y c hy hs

/-- A new connection has a channel of its own. -/
theorem Settled.connApart (h : place.Settled s) {x : String} (hx : x ≠ place.sid)
    {stream : WrappedStream} (hw : place.guards stream.streamId = false) :
    place.ConnApart ⟨x, stream, s.nextChannel, none⟩ :=
  ⟨hx, hw, fun mine hm => (h.channel mine hm).ne', fun _ _ _ _ => by rintro ⟨⟩⟩

theorem Settled.update_addCircuit (h : place.Settled s) {x : String} {stream : WrappedStream}
    (hu : place.UpdateApart s (.addCircuit x stream)) :
    place.Settled ((Update.addCircuit x stream).apply s) := by
  simp only [Update.apply]
  cases hc : s.circuitMap x with
  | some conn => exact h
  | none =>
    have hset : place.Settled
        ((Update.circuit x (some ⟨x, stream, s.nextChannel, none⟩)).apply s) := h.update_circuit
      ⟨hu.1, fun c hc => Option.some.inj hc ▸ h.connApart hu.1 hu.2⟩
    exact
      { __ := hset
        channel := fun mine hm => Nat.lt_succ_of_lt (h.channel mine hm) }

theorem Settled.update_waiter (h : place.Settled s) (key : String) :
    place.Settled (s.register key) where
  __ := h
  acks i ack hi := by
    cases he : s.eventBus key with
    | none =>
      simp only [Shared.register, he] at hi
      exact h.acks i ack hi
    | some old =>
      simp only [Shared.register, he] at hi
      by_cases hio : i = old
      · simp [hio] at hi
      · rw [Function.update_of_ne hio] at hi
        exact h.acks i ack hi

theorem Settled.same_waiter (h : place.Settled s) (key : String) : place.Same s (s.register key) :=
  ⟨h.update_waiter key, fun _ _ _ _ => rfl, fun _ _ => rfl, fun _ _ => rfl⟩

/-- An update for another session leaves the path alone. -/
theorem update_same (h : place.Settled s) {u : Update} (hu : place.UpdateApart s u) :
    place.Same s (u.apply s) := by
  cases u with
  | session x f => exact ⟨h.update_session hu, fun _ _ _ _ => rfl, fun _ _ => rfl, fun _ _ => rfl⟩
  | circuit x conn => exact ⟨h.update_circuit hu, fun _ _ _ _ => rfl, fun _ _ => rfl, fun _ _ => rfl⟩
  | addCircuit x stream =>
    refine ⟨h.update_addCircuit hu, fun _ _ _ _ => ?_, fun _ _ => ?_, fun _ _ => ?_⟩
    all_goals
      simp only [Update.apply]
      cases s.circuitMap x <;> rfl
  | waiter contents => exact h.same_waiter _
  | channel =>
    refine ⟨{ h with channel := fun mine hm => Nat.lt_succ_of_lt (h.channel mine hm) }, ?_, ?_, ?_⟩
    · exact fun _ _ _ _ => rfl
    · exact fun _ _ => rfl
    · exact fun _ _ => rfl
  | transport t =>
    refine ⟨{ h with transport := fun mine ref hm hr =>
      Nat.lt_succ_of_lt (h.transport mine ref hm hr) }, ?_, ?_, ?_⟩
    · intro mine ref hm hr
      exact Function.update_of_ne (h.transport mine ref hm hr).ne _ _
    · exact fun _ _ => rfl
    · exact fun _ _ => rfl
  | data x b =>
    simp only [Update.apply]
    cases hc : s.circuitMap x with
    | none => exact .refl h
    | some conn =>
      refine ⟨{ h with }, fun _ _ _ _ => rfl, fun _ _ => rfl, fun mine hm => ?_⟩
      have hne := (h.circuits x conn hu hc).channel mine hm
      exact Function.update_of_ne hne.symm _ _
  | look => exact .refl h
  | probe | task | peer | wn =>
    exact ⟨{ h with }, fun _ _ _ _ => rfl, fun _ _ => rfl, fun _ _ => rfl⟩

/-! ## Requests -/

/-- The request is made for another session. -/
def ActApart (place : Place) : Act → Prop
  | .spawn t => place.TaskApart t
  | .write w b => place.guards w.streamId = false ∧ place.FrameApart b
  | .read w => place.guards w.streamId = false
  | .close w => place.guards w.streamId = false
  | .nextData c => ∀ mine, place.circuit = some mine → c ≠ mine.inChannel
  | _ => True

/-- The answer brings nothing of the path. -/
def Answers (place : Place) : (a : Act) → a.Res → Prop
  | .newRelayStream _, o => ∀ w, o = some w → place.guards w.streamId = false
  | .read _, res => ∀ b, res = .ok b → place.FrameApart b
  | .awaitAck _, o => ∀ ack, o = some ack → place.AckApart ack
  | .nextProxyRequest, r => place.ProxyApart r
  | .nextCmdRequest, r => place.CmdApart r
  | .now, n => ∀ remote me, place.node.whitenoiseId = some me →
    Node.generateSessionId remote me n ≠ place.sid
  | _, _ => True

omit [Codec] in
/-- An answer only takes from the queues and only opens streams. -/
theorem reply_takes {a : Act} {c : Choice} {x : Reply Shared Task Output a.Res}
    (h : Shared.reply a c s = some x) :
    (∀ w ∈ s.streams, w ∈ x.state.streams) ∧
      (∀ r ∈ x.state.proxyRequests, r ∈ s.proxyRequests) ∧
      (∀ r ∈ x.state.cmdRequests, r ∈ s.cmdRequests) ∧
      ∀ w, ∀ r ∈ x.state.inbox w, r ∈ s.inbox w := by
  unfold Shared.reply at h
  split at h
  all_goals first
    | (obtain ⟨_, _, hq, rfl⟩ := Shared.dequeue_eq_some h
       refine ⟨fun _ h => h, fun r h => ?_, fun r h => ?_, fun w r h => ?_⟩
       all_goals first
         | exact h
         | (rw [hq]
            exact List.mem_cons_of_mem _ h)
         | (simp only [Function.update_apply] at h
            split at h
            · next he =>
              rw [he, hq]
              exact List.mem_cons_of_mem _ h
            · exact h))
    | (cases h <;> exact ⟨fun _ h => h, fun _ h => h, fun _ h => h, fun _ _ h => h⟩)
    | (split at h <;> cases h <;>
        exact ⟨fun _ h => by simp [h], fun _ h => h, fun _ h => h, fun _ _ h => h⟩)

omit [Codec] in
/-- An answer leaves the other streams and the other channels alone. -/
theorem reply_leaves {a : Act} {c : Choice} {x : Reply Shared Task Output a.Res}
    (h : Shared.reply a c s = some x) :
    (∀ w, (∀ v, a = .read v → w ≠ v.streamId) → x.state.inbox w = s.inbox w) ∧
      ∀ i, a ≠ .nextData i → x.state.channels i = s.channels i := by
  unfold Shared.reply at h
  split at h
  all_goals first
    | (obtain ⟨_, _, -, rfl⟩ := Shared.dequeue_eq_some h
       refine ⟨fun w hw => ?_, fun i hi => ?_⟩
       all_goals first
         | rfl
         | exact Function.update_of_ne (hw _ rfl) _ _
         | exact Function.update_of_ne (fun he => hi (by rw [he])) _ _)
    | (cases h <;> exact ⟨fun _ _ => rfl, fun _ _ => rfl⟩)
    | (split at h <;> cases h <;> exact ⟨fun _ _ => rfl, fun _ _ => rfl⟩)

/-- What the locks protect is the same, and less waits. -/
theorem Settled.of_sameMaps (h : place.Settled s) (hm : s.SameMaps s')
    (hstreams : ∀ w ∈ s.streams, w ∈ s'.streams)
    (hproxy : ∀ r ∈ s'.proxyRequests, place.ProxyApart r)
    (hcmd : ∀ r ∈ s'.cmdRequests, place.CmdApart r)
    (hinbox : ∀ w, ∀ res ∈ s'.inbox w, place.Arrives w res) : place.Settled s' where
  session := hm.sessionMap ▸ h.session
  circuit := hm.circuitMap ▸ h.circuit
  sessions := hm.sessionMap ▸ h.sessions
  circuits := hm.circuitMap ▸ h.circuits
  streams w hw := hstreams w (h.streams w hw)
  channel := hm.nextChannel ▸ h.channel
  transport := hm.nextTransport ▸ h.transport
  acks := hm.oneshots ▸ h.acks
  proxyRequests := hproxy
  cmdRequests := hcmd
  inbox := hinbox

theorem Settled.reply (h : place.Settled s) {a : Act} {c : Choice}
    {x : Reply Shared Task Output a.Res} (hx : Shared.reply a c s = some x) :
    place.Settled x.state := by
  obtain ⟨hstreams, hproxy, hcmd, hinbox⟩ := reply_takes hx
  exact h.of_sameMaps (reply_sameMaps hx) hstreams (fun r hr => h.proxyRequests r (hproxy r hr))
    (fun r hr => h.cmdRequests r (hcmd r hr)) fun w r hr => h.inbox w r (hinbox w r hr)

/-- A request for another session leaves the path alone. -/
theorem reply_same (h : place.Settled s) {a : Act} {c : Choice} (ha : place.ActApart a)
    {x : Reply Shared Task Output a.Res} (hx : Shared.reply a c s = some x) :
    place.Same s x.state := by
  obtain ⟨hinbox, hchannels⟩ := reply_leaves hx
  refine ⟨h.reply hx, fun mine ref _ _ => ?_, fun w hw => hinbox w ?_, fun mine hm => ?_⟩
  · rw [(reply_sameMaps hx).transports]
  · rintro v rfl rfl
    exact absurd hw (by simpa [ActApart] using ha)
  · apply hchannels
    rintro rfl
    exact ha mine hm rfl

theorem reply_stays {a : Act} {c : Choice} (ha : place.ActApart a)
    {x : Reply Shared Task Output a.Res} (hx : Shared.reply a c s = some x) :
    (∀ o ∈ x.outputs, place.Stays o) ∧ ∀ t ∈ x.spawned, place.TaskApart t := by
  unfold Shared.reply at hx
  split at hx
  all_goals first
    | (obtain ⟨_, _, -, rfl⟩ := Shared.dequeue_eq_some hx
       exact ⟨List.forall_mem_nil _, List.forall_mem_nil _⟩)
    | (cases hx
       done)
    | (cases hx
       refine ⟨fun o ho => ?_, fun t ht => ?_⟩
       all_goals first
         | cases ho
         | cases ht
       all_goals first
         | exact ha
         | trivial)
    | (split at hx <;> cases hx <;> refine ⟨fun o ho => ?_, fun t ht => ?_⟩
       all_goals first
         | cases ho
         | cases ht
       all_goals trivial)

theorem reply_moves (h : place.Settled s) {ρ : Option Direction} {a : Act} {c : Choice}
    (ha : place.ActApart a) {x : Reply Shared Task Output a.Res}
    (hx : Shared.reply a c s = some x) :
    place.Moves ρ s x.state x.outputs x.spawned [] [] := by
  obtain ⟨hos, hts⟩ := reply_stays ha hx
  exact (reply_same h ha hx).moves hos hts

theorem reply_answers (h : place.Settled s) {a : Act} {c : Choice} (hc : place.Allows c)
    (ha : place.ActApart a) {x : Reply Shared Task Output a.Res}
    (hx : Shared.reply a c s = some x) : place.Answers a x.answer := by
  cases a with
  | newRelayStream peer =>
    intro w hw
    cases c with
    | stream o =>
      cases o with
      | none =>
        cases hx
        cases hw
      | some v =>
        simp only [Shared.reply] at hx
        split at hx
        · next hv =>
          cases hx
          cases hw
          by_contra hg
          exact hv.2 (h.streams _ (by simpa using hg))
        · cases hx
    | _ => cases hx
  | read w =>
    obtain ⟨res, q, hq, rfl⟩ := Shared.dequeue_eq_some hx
    have harrives := h.inbox w.streamId res (hq ▸ List.mem_cons_self)
    have hw : place.guards w.streamId = false := ha
    simpa only [Answers, Arrives, hw, Bool.false_eq_true, if_false] using harrives
  | awaitAck receiver =>
    intro ack hack
    simp only [Shared.reply] at hx
    split at hx
    · cases hx
    · next sent hsent =>
      cases hx
      cases hack
      exact h.acks receiver _ hsent
    · cases hx
      cases hack
  | nextProxyRequest =>
    obtain ⟨r, q, hq, rfl⟩ := Shared.dequeue_eq_some hx
    exact h.proxyRequests r (hq ▸ List.mem_cons_self)
  | nextCmdRequest =>
    obtain ⟨r, q, hq, rfl⟩ := Shared.dequeue_eq_some hx
    exact h.cmdRequests r (hq ▸ List.mem_cons_self)
  | now =>
    cases c with
    | micros n =>
      cases hx
      exact hc n rfl
    | _ => cases hx
  | _ => trivial

/-! ## Bystanders -/

/-- The program serves other sessions, its result being in `P`. -/
abbrev Bystands (place : Place) (P : α → Prop) (p : Async α) : Prop :=
  Semantics.Keeps (nodeSemantics place.node) (place.contract none) P p

variable {P : α → Prop} {p : Async α}

theorem bystands_call {a : Act} (ha : place.ActApart a) :
    place.Bystands (place.Answers a) (Prog.call a) :=
  .call (by rintro d ⟨⟩) fun _ _ _ hs hc hx => ⟨reply_moves hs ha hx, reply_answers hs (hc rfl) ha hx⟩

theorem bystands_update {u : Update} {g : Shared → α}
    (hu : ∀ s, place.Settled s → place.UpdateApart s u) (hg : ∀ s, place.Settled s → P (g s)) :
    place.Bystands P (Prog.update u.apply g) :=
  .update (fun s hs => (update_same hs (hu s hs)).moves (List.forall_mem_nil _)
    (List.forall_mem_nil _)) hg

theorem bystands_read {g : Shared → α} (hg : ∀ s, place.Settled s → P (g s)) :
    place.Bystands P (Prog.read g) :=
  .update (fun _ hs => hs.moves_refl) hg

theorem bystands_write {u : Update} (hu : ∀ s, place.Settled s → place.UpdateApart s u) :
    place.Bystands (fun _ => True) (Prog.write u.apply) :=
  bystands_update hu fun _ _ => trivial

theorem bystands_unwrap (o : Option α) : place.Bystands (fun a => o = some a) (Prog.unwrap o) :=
  .unwrap rfl fun _ h => h

theorem bystands_none : place.Bystands (fun o : Option α => ∀ a, o = some a → P a) (.ret none) := by
  refine .ret ?_
  rintro a ⟨⟩

theorem bystands_spawn {t : Task} (h : place.TaskApart t) :
    place.Bystands (fun _ => True) (Async.spawn t) :=
  (bystands_call (a := .spawn t) h).mono fun _ _ => trivial

/-! ### Frames -/

section

variable {stream : WrappedStream} {relay : Relay} {x : String}

omit [Crypto] in
@[simp] theorem names_confusion (relay : Relay) (confusion : Bytes) :
    ({ relay with confusion } : Relay).names = relay.names := rfl

omit [Crypto] in
@[simp] theorem names_newRelayDisconnect : (newRelayDisconnect x).names = some x := by
  simp [newRelayDisconnect, newRelay, Relay.names, Relaytype.toI32]

omit [Crypto] in
@[simp] theorem names_newRelayWake : (newRelay .wake []).names = none := by
  simp [newRelay, Relay.names, Relaytype.toI32]

omit [Crypto] in
@[simp] theorem names_newRelaySetSession (role : Int32) :
    (newRelaySetSession x role).names = some x := by
  simp [newRelaySetSession, newRelay, Relay.names, Relaytype.toI32]

omit [Crypto] in
@[simp] theorem names_newRelayCircuitSuccess : (newRelayCircuitSuccess x).names = some x := by
  simp [newRelayCircuitSuccess, newRelay, Relay.names, Relaytype.toI32]

@[simp] theorem names_newRelayProbe : (newRelayProbe x).names = none := by
  simp [newRelayProbe, newRelay, Relay.names, Relaytype.toI32]

omit [Crypto] in
@[simp] theorem names_payloadRelay (buf : Bytes) : (payloadRelay buf x).names = some x := by
  simp [payloadRelay, newRelay, Relay.names, Relaytype.toI32]

theorem bystands_writeRelayArc (hw : place.guards stream.streamId = false)
    (hr : relay.names ≠ some place.sid) :
    place.Bystands (fun _ => True) (writeRelayArc stream relay) := by
  have hpad : place.Bystands (fun padded => ∃ confusion, padded = { relay with confusion })
      (confusionRelay relay) :=
    .bind (bystands_call (a := .randomBelow _) trivial) fun confusion _ => .ret ⟨confusion, rfl⟩
  refine .bind hpad ?_
  rintro _ ⟨confusion, rfl⟩
  refine .bind (bystands_call (a := .write _ _) ⟨hw, ?_⟩) fun _ _ => .ret trivial
  rw [FrameApart, frameNames_encode]
  exact hr

theorem bystands_writePayloadArc (hw : place.guards stream.streamId = false) (hx : x ≠ place.sid)
    {buf : Bytes} {len : ℕ} :
    place.Bystands (fun _ => True) (writePayloadArc stream buf len x) := by
  refine .ite (fun _ => rfl) fun _ => .bind (bystands_writeRelayArc hw ?_) fun _ _ => .ret trivial
  simpa using hx

theorem bystands_forwardRelay {session : Session} {current : ℕ}
    (hs : place.SessionApart session) (hr : relay.names ≠ some place.sid) :
    place.Bystands (fun _ => True) (forwardRelay session current relay) := by
  have hearly {w : WrappedStream} (h : session.pairStream.earlyStream = some w) :
      place.guards w.streamId = false := hs _ (by simp [PairStream.has, h])
  have hlater {w : WrappedStream} (h : session.pairStream.laterStream = some w) :
      place.guards w.streamId = false := hs _ (by simp [PairStream.has, h])
  refine .bind (bystands_unwrap _) fun early he => .ite (fun _ => ?_) fun _ => ?_
  · refine .bind (bystands_unwrap _) fun later hl => ?_
    exact .bind (bystands_writeRelayArc (hlater hl) hr) fun _ _ => .ret trivial
  · refine .bind (bystands_unwrap _) fun later hl => .ite (fun _ => ?_) fun _ => .ret trivial
    exact .bind (bystands_writeRelayArc (hearly he) hr) fun _ _ => .ret trivial

theorem bystands_sendRelayTwoway {session : Session} (hs : place.SessionApart session)
    (hr : relay.names ≠ some place.sid) :
    place.Bystands (fun _ => True) (sendRelayTwoway session relay) := by
  have hspawn {w : WrappedStream} (h : session.pairStream.has w.streamId) :
      place.Bystands (fun _ => True) (Async.spawn (.writeRelayArc w relay)) :=
    bystands_spawn ⟨hs w.streamId h, hr⟩
  unfold sendRelayTwoway
  cases he : session.pairStream.earlyStream with
  | none =>
    cases hl : session.pairStream.laterStream with
    | none => exact .ret trivial
    | some later => exact hspawn (by simp [PairStream.has, hl])
  | some early =>
    refine .bind (hspawn (by simp [PairStream.has, he])) fun _ _ => ?_
    cases hl : session.pairStream.laterStream with
    | none => exact .ret trivial
    | some later => exact hspawn (by simp [PairStream.has, hl])

end

/-! ### The operations of a node -/

section

variable {peer : PeerId} {x : String}

theorem bystands_getSession (hx : x ≠ place.sid) :
    place.Bystands (fun o => ∀ session, o = some session → place.SessionApart session)
      (Async.getSession x) :=
  bystands_read fun _ hs session => hs.sessions x session hx

theorem bystands_insertSession (hx : x ≠ place.sid) {session : Session}
    (h : place.SessionApart session) :
    place.Bystands (fun _ => True) (Async.insertSession x session) :=
  bystands_write (u := .session x fun _ => some session)
    fun _ _ => ⟨hx, fun _ he => Option.some.inj he ▸ h⟩

omit [Codec] in
theorem sessionApart_new {w : WrappedStream} (hw : place.guards w.streamId = false) (role : Int32) :
    place.SessionApart ⟨x, ⟨some w, none⟩, role⟩ := by
  intro i hi
  obtain rfl : w.streamId = i := by simpa [PairStream.has] using hi
  exact hw

omit [Codec] in
theorem SessionApart.later {session : Session} (h : place.SessionApart session) {w : WrappedStream}
    (hw : place.guards w.streamId = false) :
    place.SessionApart
      { session with pairStream := ⟨session.pairStream.earlyStream, some w⟩ } := by
  intro i hi
  simp only [PairStream.has, Option.any_some, Bool.or_eq_true, decide_eq_true_eq] at hi
  obtain he | rfl := hi
  · exact h i (by simp [PairStream.has, he])
  · exact hw

theorem bystands_close {w : WrappedStream} (hw : place.guards w.streamId = false) :
    place.Bystands (fun _ => True) (Async.close w) :=
  (bystands_call (a := .close w) hw).mono fun _ _ => trivial

theorem bystands_handleCloseSession (hx : x ≠ place.sid) :
    place.Bystands (fun _ => True) (Node.handleCloseSession x) := by
  have htail : place.Bystands (fun _ => True) (do
      Async.removeCircuit x
      Async.removeProbe x) :=
    .bind (bystands_write (u := .circuit x none) fun _ _ => ⟨hx, by rintro c ⟨⟩⟩) fun _ _ =>
      bystands_write (u := .probe x none) fun _ _ => trivial
  have hremove : place.Bystands (fun o => ∀ session, o = some session → place.SessionApart session)
      (Async.removeSession x) :=
    bystands_update (u := .session x fun _ => none) (fun _ _ => ⟨hx, by rintro session ⟨⟩⟩)
      fun _ hs session => hs.sessions x session hx
  refine .bind hremove fun o ho => ?_
  cases o with
  | none => exact htail
  | some session =>
    dsimp only
    have hclose {w : WrappedStream} (h : session.pairStream.has w.streamId) :
        place.Bystands (fun _ => True) (Async.close w) :=
      bystands_close (ho session rfl w.streamId h)
    cases he : session.pairStream.earlyStream with
    | none =>
      cases hl : session.pairStream.laterStream with
      | none => exact htail
      | some later => exact .bind (hclose (by simp [PairStream.has, hl])) fun _ _ => htail
    | some early =>
      refine .bind (hclose (by simp [PairStream.has, he])) fun _ _ => ?_
      cases hl : session.pairStream.laterStream with
      | none => exact htail
      | some later => exact .bind (hclose (by simp [PairStream.has, hl])) fun _ _ => htail

theorem bystands_send {r : NodeRequest} : place.Bystands (fun _ => True) (Async.send r) :=
  (bystands_call (a := .send r) trivial).mono fun _ _ => trivial

theorem bystands_sendAck {ack : Ack} : place.Bystands (fun _ => True) (Node.sendAck peer ack) :=
  bystands_send

theorem bystands_awaitAck {receiver : ℕ} :
    place.Bystands place.AckApart (Async.awaitAck receiver) :=
  .bind (bystands_call (a := .awaitAck receiver) trivial) fun _ ho => .unwrap rfl ho

theorem bystands_registerWaiter {key : String} :
    place.Bystands (fun _ => True) (Async.registerWaiter key) :=
  .update (fun _ hs => (hs.same_waiter key).moves (List.forall_mem_nil _) (List.forall_mem_nil _)) fun _ _ => trivial

theorem bystands_externalSendNodeRequestAndWait {key : String} {r : NodeRequest} :
    place.Bystands place.AckApart (Node.externalSendNodeRequestAndWait key r) :=
  .bind bystands_registerWaiter fun _ _ => .bind bystands_send fun _ _ => bystands_awaitAck

theorem bystands_sendProxyRequestAndWait {request : Request} :
    place.Bystands place.AckApart (Node.sendProxyRequestAndWait peer request) :=
  bystands_externalSendNodeRequestAndWait

/-- The stream that is opened is a new one. -/
theorem bystands_newSessionToPeer (hx : x ≠ place.sid) {myRole otherRole : Int32} :
    place.Bystands (fun o => ∀ w, o = some w → place.guards w.streamId = false)
      (Node.newSessionToPeer peer x myRole otherRole) := by
  refine .bind (bystands_call (a := .newRelayStream peer) trivial) fun o ho => ?_
  cases o with
  | none => exact bystands_none
  | some w =>
    have hw := ho w rfl
    have hw' : ∀ v, some w = some v → place.guards v.streamId = false := ho
    refine .bind (.bind (bystands_writeRelayArc hw (by simp)) fun _ _ => .ret trivial)
      fun _ (_ : True) => ?_
    refine .bind (bystands_writeRelayArc hw (by simpa using hx)) fun key _ => ?_
    refine .bind bystands_registerWaiter fun _ _ => .bind bystands_awaitAck fun _ _ => ?_
    refine .bind (bystands_spawn ⟨hw, by simpa using hx⟩) fun _ _ => ?_
    refine .bind (bystands_getSession hx) fun session _ => .ite (fun _ => ?_) fun _ => ?_
    · exact .bind (bystands_insertSession hx (sessionApart_new hw myRole)) fun _ _ => .ret hw'
    · refine .bind (bystands_getSession hx) fun o ho => ?_
      refine .bind (bystands_unwrap o) fun session hs => ?_
      exact .bind (bystands_insertSession hx ((ho session hs).later hw)) fun _ _ => .ret hw'

theorem bystands_registerProxy {node : Node} :
    place.Bystands (fun _ => True) (Node.registerProxy node peer) :=
  .bind (bystands_unwrap _) fun _ _ => .bind bystands_sendProxyRequestAndWait fun _ _ =>
    .ret trivial

theorem bystands_getMainNets {cnt : Int32} :
    place.Bystands (fun _ => True) (Node.getMainNets cnt peer) :=
  .bind bystands_sendProxyRequestAndWait fun _ _ => .bind (bystands_unwrap _) fun _ _ =>
    .ret trivial

theorem bystands_newCircuit {remoteWhitenoiseId localWhitenoiseId localPeerId : String} :
    place.Bystands (fun _ => True)
      (Node.newCircuit remoteWhitenoiseId localWhitenoiseId localPeerId x peer) :=
  .bind (bystands_unwrap _) fun _ _ => .bind (bystands_unwrap _) fun _ _ =>
    .bind bystands_sendProxyRequestAndWait fun _ _ => .ret trivial

theorem bystands_dial {remoteWhitenoiseId : String} :
    place.Bystands (fun _ => True) (Node.dial place.node remoteWhitenoiseId) := by
  unfold Node.dial
  refine .bind (bystands_unwrap _) fun me hme => ?_
  refine .bind (bystands_call (a := .now) trivial) fun n hn => ?_
  -- the identifier that is drawn is another one
  have hx : Node.generateSessionId remoteWhitenoiseId me n ≠ place.sid := hn _ me hme
  refine .bind (bystands_unwrap _) fun index _ => .bind (bystands_unwrap _) fun pubBytes _ => ?_
  refine .bind (bystands_write (u := .task _ _) fun _ _ => trivial) fun _ _ => ?_
  refine .bind (bystands_unwrap _) fun proxyId _ => ?_
  refine .bind (bystands_newSessionToPeer hx) fun o ho => ?_
  refine .bind (bystands_unwrap o) fun stream hstream => ?_
  have hch : place.Bystands (fun c => ∀ mine, place.circuit = some mine → c ≠ mine.inChannel)
      Async.newChannel :=
    bystands_update (u := .channel) (fun _ _ => trivial) fun s hs mine hm => (hs.channel mine hm).ne'
  refine .bind hch fun inChannel hin => ?_
  have hconn : place.ConnApart
      ⟨Node.generateSessionId remoteWhitenoiseId me n, stream, inChannel, none⟩ :=
    ⟨hx, ho stream hstream, hin, fun _ _ _ _ => by rintro ⟨⟩⟩
  have hinsert : place.Bystands (fun _ => True) (Async.insertCircuit _ _) :=
    bystands_write (u := .circuit _ (some _)) fun _ _ =>
      ⟨hx, fun _ he => Option.some.inj he ▸ hconn⟩
  exact .bind hinsert fun _ _ => .bind bystands_newCircuit fun _ _ => .ret trivial

end

/-! ### The relay stream handler -/

section

variable {stream : WrappedStream} {relay : Relay} {x : String} {circuitConn : CircuitConn}
  {noise : Crypto.Handshake}

theorem bystands_getCircuit (hx : x ≠ place.sid) :
    place.Bystands (fun o => ∀ conn, o = some conn → place.ConnApart conn) (Async.getCircuit x) :=
  bystands_read fun _ hs conn => hs.circuits x conn hx

theorem bystands_handleRelayProbe (hx : x ≠ place.sid) (hr : relay.names ≠ some place.sid) :
    place.Bystands (fun _ => True) (handleRelayProbe x stream relay) := by
  refine .bind (bystands_unwrap _) fun probe _ => .bind (bystands_getSession hx) fun o ho => ?_
  cases o with
  | none => exact .ret trivial
  | some session =>
    have hs := ho session rfl
    refine .ite (fun _ => ?_) fun _ => .ite (fun _ => ?_) fun _ => .ret trivial
    · have hread {α : Type} {g : Shared → α} : place.Bystands (fun _ => True) (Prog.read g) :=
        bystands_read fun _ _ => trivial
      refine .bind hread fun _ _ => .ite (fun _ => ?_) fun _ => ?_
      · refine .bind hread fun _ _ => .bind (bystands_unwrap _) fun _ _ => .ite (fun _ => ?_) fun _ => ?_
        · exact bystands_sendRelayTwoway hs (by simpa using hx)
        · exact bystands_handleCloseSession hx
      · exact bystands_write (u := .probe x (some _)) fun _ _ => trivial
    · exact bystands_forwardRelay hs hr

theorem bystands_handleSuccess (htype : relay.type = Relaytype.success.toI32)
    (hr : relay.names ≠ some place.sid) :
    place.Bystands (fun _ => True) (handleSuccess stream relay) := by
  unfold handleSuccess
  cases hdec : (Codec.decode relay.data : Option CircuitSuccess) with
  | none => exact .ret trivial
  | some msg =>
    have hx : msg.sessionId ≠ place.sid := by
      simpa [Relay.names, htype, hdec, Relaytype.toI32] using hr
    refine .bind (bystands_getSession hx) fun o ho => ?_
    cases o with
    | none => exact .ret trivial
    | some session =>
      have hspawn {initiate : Bool} : place.Bystands (fun _ => True) (do
          let circuitConn ← Prog.unwrap (← Async.getCircuit msg.sessionId)
          Async.spawn (.processHandshake circuitConn initiate msg.sessionId)) :=
        .bind (bystands_getCircuit hx) fun _ hc => .bind (bystands_unwrap _) fun conn hconn =>
          bystands_spawn ⟨hc conn hconn, hx⟩
      exact .ite (fun _ => hspawn) fun _ => .ite (fun _ => hspawn) fun _ =>
        .ite (fun _ => bystands_forwardRelay (ho session rfl) hr) fun _ => .ret trivial

theorem bystands_handleRelayMsg (htype : relay.type = Relaytype.data.toI32)
    (hr : relay.names ≠ some place.sid) :
    place.Bystands (fun _ => True) (handleRelayMsg stream relay) := by
  unfold handleRelayMsg
  cases hdec : (Codec.decode relay.data : Option RelayMsg) with
  | none => exact .ret trivial
  | some msg =>
    have hx : msg.sessionId ≠ place.sid := by
      simpa [Relay.names, htype, hdec, Relaytype.toI32] using hr
    refine .bind (bystands_getSession hx) fun o ho => ?_
    cases o with
    | none => exact .ret trivial
    | some session =>
      exact .ite (fun _ => bystands_write (u := .data _ _) fun _ _ => hx) fun _ =>
        .ite (fun _ => bystands_forwardRelay (ho session rfl) hr) fun _ => .ret trivial

theorem bystands_handleSetSession {msg : SetSessionIdMsg} (hx : msg.sessionId ≠ place.sid)
    (hw : place.guards stream.streamId = false) {relayId : String} :
    place.Bystands (fun _ => True) (handleSetSession msg stream relayId) := by
  refine .bind (bystands_getSession hx) fun o ho => ?_
  cases o with
  | none =>
    exact .bind (bystands_insertSession hx (sessionApart_new hw _)) fun _ _ => bystands_sendAck
  | some session =>
    have hs := ho session rfl
    refine .ite (fun _ => .ite (fun _ => ?_) fun _ => bystands_handleCloseSession hx) fun _ => ?_
    · refine .bind (bystands_insertSession hx (hs.later hw)) fun _ _ => ?_
      refine .bind (bystands_unwrap _) fun toClose hclose => ?_
      have hto : place.guards toClose.streamId = false := hs _ (by simp [PairStream.has, hclose])
      refine .bind (.bind (bystands_writeRelayArc hto (by simpa using hx)) fun _ _ => .ret trivial)
        fun _ (_ : True) => ?_
      exact .bind (bystands_close hto) fun _ _ => bystands_sendAck
    · rw [← joinLater_apply]
      have hjoin : place.Bystands (fun _ => True)
          (Prog.update (Update.session msg.sessionId (joinLater stream)).apply
            fun s => (s.sessionMap msg.sessionId).isSome) := by
        refine bystands_update (fun s hs => ⟨hx, fun joined hj => ?_⟩) fun _ _ => trivial
        obtain ⟨session, hsession, rfl⟩ := Option.map_eq_some_iff.mp hj
        exact (hs.sessions _ session hx hsession).later hw
      exact .bind hjoin fun _ _ => .ite (fun _ => bystands_sendAck) fun _ => .fail rfl

theorem bystands_relayEvent {current : Option String} (hw : place.guards stream.streamId = false)
    (hc : current ≠ some place.sid) (hr : relay.names ≠ some place.sid) :
    place.Bystands (fun o => ∀ next, o = some next → next ≠ some place.sid)
      (relayEvent stream current relay) := by
  have hsame : place.Bystands (fun o => ∀ next, o = some next → next ≠ some place.sid)
      (return some current) := .ret fun _ h => Option.some.inj h ▸ hc
  have hset (htype : relay.type = Relaytype.setSessionId.toI32) :
      place.Bystands (fun o => ∀ next, o = some next → next ≠ some place.sid) (do
        let relaySetSession : SetSessionIdMsg ← Prog.unwrap (Codec.decode relay.data)
        let current := current.getD relaySetSession.sessionId
        if relaySetSession.role = SessionRole.answerRole.toI32 then
          addCircuitConn current stream
        handleSetSession relaySetSession stream relay.id
        return some (some current)) := by
    refine .bind (bystands_unwrap _) fun msg hmsg => ?_
    have hx : msg.sessionId ≠ place.sid := by
      simpa [Relay.names, htype, hmsg, Relaytype.toI32] using hr
    have hcur : current.getD msg.sessionId ≠ place.sid := by
      cases current with
      | none => exact hx
      | some x => simpa using hc
    have hjoin : place.Bystands (fun o => ∀ next, o = some next → next ≠ some place.sid) (do
        handleSetSession msg stream relay.id
        return some (some (current.getD msg.sessionId))) :=
      .bind (bystands_handleSetSession hx hw) fun _ _ =>
        .ret fun _ h => Option.some.inj h ▸ fun he => hcur (Option.some.inj he)
    refine .ite (fun _ => ?_) fun _ => hjoin
    exact .bind (bystands_write (u := .addCircuit _ stream) fun _ _ => ⟨hcur, hw⟩) fun _ _ => hjoin
  refine .ite (fun _ => hsame) fun _ => .ite (fun _ => hsame) fun _ => .ite (fun _ => ?_) fun _ =>
    .ite (fun htype => ?_) fun _ => .ite hset fun _ => .ite (fun htype => ?_) fun _ =>
    .ite (fun htype => ?_) fun _ => hsame
  · refine .bind (bystands_unwrap current) fun x hx => ?_
    exact .bind (bystands_handleRelayProbe (fun he => hc (he ▸ hx)) hr) fun _ _ => hsame
  · cases hdec : (Codec.decode relay.data : Option Disconnect) with
    | none => exact bystands_none
    | some msg =>
      have hx : msg.sessionId ≠ place.sid := by
        simpa [Relay.names, htype, hdec, Relaytype.toI32] using hr
      exact .bind (bystands_handleCloseSession hx) fun _ _ => bystands_none
  · exact .bind (bystands_handleSuccess htype hr) fun _ _ => hsame
  · exact .bind (bystands_handleRelayMsg htype hr) fun _ _ => hsame

/-- What a thread goes on with. -/
def Next (place : Place) (o : Option Task) : Prop := ∀ t, o = some t → place.TaskApart t

theorem next_none : place.Next none := by
  rintro t ⟨⟩

theorem bystands_relayEventHandler {current : Option String}
    (hw : place.guards stream.streamId = false) (hc : current ≠ some place.sid) :
    place.Bystands place.Next (relayEventHandler stream current) := by
  have hread : place.Bystands (fun res => ∀ relay, res = .ok relay → relay.names ≠ some place.sid)
      (readFromNegotiatedArc stream) := by
    refine .bind (bystands_call (a := .read stream) hw) fun res hres => ?_
    cases res with
    | error e =>
      refine .ret ?_
      rintro relay ⟨⟩
    | ok b =>
      refine .bind (bystands_unwrap _) fun relay hrelay => .ret fun _ h => ?_
      cases h
      have happart := hres b rfl
      rwa [FrameApart, frameNames, hrelay, Option.bind_some] at happart
  refine .bind hread fun res hres => ?_
  cases res with
  | error e =>
    refine .bind (P := fun _ => True) ?_ fun _ _ => .ret next_none
    cases current with
    | none => exact .ret trivial
    | some x =>
      have hx : x ≠ place.sid := fun he => hc (he ▸ rfl)
      exact .bind (bystands_getSession hx) fun _ _ =>
        .ite (fun _ => bystands_handleCloseSession hx) fun _ => .ret trivial
  | ok relay =>
    refine .bind (bystands_relayEvent hw hc (hres relay rfl)) fun o ho => ?_
    cases o with
    | none => exact .ret next_none
    | some next =>
      refine .ret fun _ h => ?_
      cases h
      exact ⟨hw, ho next rfl⟩

theorem bystands_writeShake (hconn : place.ConnApart circuitConn) (hx : x ≠ place.sid)
    {payload : Bytes} :
    place.Bystands (fun _ => True) (writeShake circuitConn x noise payload) :=
  .bind (bystands_call (a := .randomBytes) trivial) fun _ _ => .bind (bystands_unwrap _) fun _ _ =>
    .bind (bystands_writePayloadArc hconn.stream hx) fun _ _ => .ret trivial

theorem bystands_nextData (hconn : place.ConnApart circuitConn) :
    place.Bystands (fun _ => True) (Prog.call (Act.nextData circuitConn.inChannel)) :=
  (bystands_call (a := .nextData _) hconn.channel).mono fun _ _ => trivial

theorem bystands_readShake (hconn : place.ConnApart circuitConn) :
    place.Bystands (fun _ => True) (readShake circuitConn noise) :=
  .bind (bystands_nextData hconn) fun _ _ => .unwrap rfl fun _ _ => trivial

theorem bystands_establish (hconn : place.ConnApart circuitConn) (hx : x ≠ place.sid) :
    place.Bystands (fun _ => True) (establish circuitConn x noise) := by
  refine .bind (bystands_unwrap _) fun transport _ => ?_
  have hnew : place.Bystands
      (fun ref => ∀ mine r, place.circuit = some mine → mine.transportState = some r → ref ≠ r)
      (Async.newTransport transport) :=
    bystands_update (u := .transport transport) (fun _ _ => trivial)
      fun s hs mine r hm hr => (hs.transport mine r hm hr).ne'
  refine .bind hnew fun ref href => bystands_write (u := .circuit x (some _)) fun _ _ => ⟨hx, ?_⟩
  rintro _ ⟨⟩
  exact ⟨hconn.id, hconn.stream, hconn.channel, fun mine r hm hr he =>
    href mine r hm hr (Option.some.inj he)⟩

theorem bystands_processHandshake {node : Node} (hconn : place.ConnApart circuitConn)
    (hx : x ≠ place.sid) {initiate : Bool} :
    place.Bystands (fun _ => True) (processHandshake node circuitConn initiate x) := by
  refine .bind (bystands_call (a := .randomBytes) trivial) fun _ _ => ?_
  refine .bind (bystands_unwrap _) fun keys _ => .ite (fun _ => ?_) fun _ => ?_
  · refine .bind (bystands_unwrap _) fun _ _ => .bind (bystands_writeShake hconn hx) fun _ _ => ?_
    refine .bind (bystands_readShake hconn) fun _ _ => .bind (bystands_unwrap _) fun _ _ => ?_
    refine .bind (bystands_unwrap _) fun _ _ => .bind (bystands_unwrap _) fun _ _ => ?_
    exact .bind (bystands_writeShake hconn hx) fun _ _ => bystands_establish hconn hx
  · refine .bind (bystands_unwrap _) fun _ _ => .bind (bystands_unwrap _) fun _ _ => ?_
    refine .bind (bystands_readShake hconn) fun _ _ => .bind (bystands_unwrap _) fun _ _ => ?_
    refine .bind (bystands_writeShake hconn hx) fun _ _ => .bind (bystands_readShake hconn) fun _ _ => ?_
    exact .bind (bystands_unwrap _) fun _ _ => .bind (bystands_unwrap _) fun _ _ =>
      bystands_establish hconn hx

end

/-! ### The request loops -/

section

variable {node : Node} {x : String} {peer : PeerId}

/-- A look at a registry, a choice of the environment or an unwrap of no consequence. -/
theorem bystands_look {g : Shared → α} : place.Bystands (fun _ => True) (Prog.read g) :=
  bystands_read fun _ _ => trivial

theorem bystands_ask {a : Act} (ha : place.ActApart a) :
    place.Bystands (fun _ => True) (Prog.call a) :=
  (bystands_call ha).mono fun _ _ => trivial

theorem bystands_try (o : Option α) : place.Bystands (fun _ => True) (Prog.unwrap o) :=
  .unwrap rfl fun _ _ => trivial

theorem bystands_eligible {invalid : List String} {excluded des id : String} :
    place.Bystands (fun _ => True) (eligible node invalid excluded des id) := by
  have hregistered (g : Option String → Async Bool) (hnone : g none = .ret true)
      (hsome : ∀ hash, g (some hash) = (do return (← Prog.unwrap (fromWhitenoiseToHash hash)) != des)) :
      place.Bystands (fun _ => True) (Prog.read (fun s : Shared => s.clientPeerMap id) >>= g) := by
    refine .bind bystands_look fun hash _ => ?_
    cases hash with
    | none => exact hnone ▸ .ret trivial
    | some hash => exact hsome hash ▸ .bind (bystands_try _) fun _ _ => .ret trivial
  unfold eligible
  cases node.bootPeerId with
  | none =>
    exact .bind (bystands_ask (a := .randomPeerId) trivial) fun _ _ =>
      .ite (fun _ => hregistered _ rfl fun _ => rfl) fun _ => .ret trivial
  | some p => exact .ite (fun _ => hregistered _ rfl fun _ => rfl) fun _ => .ret trivial

theorem bystands_scanPeers {nodeinfos : List NodeInfo} {invalid : List String}
    {excluded des : String} {j : ℕ} {index : UInt64} :
    place.Bystands (fun _ => True) (scanPeers node nodeinfos invalid excluded des j index) := by
  induction j generalizing index with
  | zero => exact .ret trivial
  | succ j ih =>
    refine .bind (bystands_try _) fun _ _ => .bind bystands_eligible fun _ _ => ?_
    exact .ite (fun _ => .ret trivial) fun _ => ih

theorem bystands_tryPeers (hx : x ≠ place.sid) {nodeinfos : List NodeInfo} {invalid : List String}
    {excluded des : String} {myRole otherRole : Int32} {i : ℕ} :
    place.Bystands (fun _ => True)
      (tryPeers node nodeinfos excluded des x myRole otherRole i invalid peer) := by
  induction i generalizing invalid peer with
  | zero => exact .ret trivial
  | succ i ih =>
    have hopen (p : PeerId) (g : Option WrappedStream → Async (Option PeerId))
        (hnone : g none =
          tryPeers node nodeinfos excluded des x myRole otherRole i (p.toBase58 :: invalid) p)
        (hsome : ∀ w, g (some w) = .ret (some p)) :
        place.Bystands (fun _ => True) (Node.newSessionToPeer p x myRole otherRole >>= g) := by
      refine .bind (bystands_newSessionToPeer hx) fun stream _ => ?_
      cases stream with
      | none => exact hnone ▸ ih
      | some w => exact hsome w ▸ .ret trivial
    refine .bind (bystands_ask (a := .randomUsize) trivial) fun _ _ => ?_
    refine .bind bystands_scanPeers fun found _ => ?_
    cases found with
    | none => exact hopen peer _ rfl fun _ => rfl
    | some id => exact .bind (bystands_try _) fun p _ => hopen p _ rfl fun _ => rfl

theorem bystands_inviteCallee {newCircuit : NewCircuit} (hx : newCircuit.sessionId ≠ place.sid)
    {remotePeerId join : PeerId} :
    place.Bystands (fun _ => True) (inviteCallee node newCircuit remotePeerId join) := by
  refine .bind bystands_sendProxyRequestAndWait fun _ _ => ?_
  refine .bind (bystands_ask (a := .publish _) trivial) fun _ _ => .bind (bystands_try _) fun _ _ => ?_
  refine .bind (bystands_getSession hx) fun o ho => ?_
  cases o with
  | none => exact .ret trivial
  | some session =>
    exact .bind (bystands_sendRelayTwoway (ho session rfl) (by simp)) fun _ _ => .ret trivial

theorem bystands_buildAsEntry {newCircuit : NewCircuit} (hx : newCircuit.sessionId ≠ place.sid)
    {remotePeerId : PeerId} :
    place.Bystands (fun _ => True) (buildAsEntry node newCircuit remotePeerId) := by
  refine .bind (bystands_ask (a := .getMainNets 100) trivial) fun nodeinfos _ => ?_
  cases nodeinfos with
  | none => exact .ret trivial
  | some nodeinfos =>
    refine .bind (bystands_ask (a := .randomPeerId) trivial) fun _ _ => ?_
    refine .bind (bystands_tryPeers hx) fun found _ => ?_
    cases found with
    | none => exact .bind (bystands_handleCloseSession hx) fun _ _ => .ret trivial
    | some _ => exact bystands_inviteCallee hx

theorem bystands_buildAsEntryAndAccess {newCircuit : NewCircuit} {toClientInfo : ClientInfo}
    (hx : newCircuit.sessionId ≠ place.sid) :
    place.Bystands (fun _ => True) (buildAsEntryAndAccess newCircuit toClientInfo) := by
  refine .bind (bystands_newSessionToPeer hx) fun stream _ => ?_
  cases stream with
  | none => exact .ret trivial
  | some _ =>
    refine .bind (bystands_getSession hx) fun o ho => ?_
    cases o with
    | none => exact .ret trivial
    | some session =>
      exact .bind (bystands_sendRelayTwoway (ho session rfl) (by simpa using hx))
        fun _ _ => .ret trivial

theorem bystands_handleNewCircuit {request : Request} {remotePeerId : PeerId}
    (h : ∀ newCircuit : NewCircuit, Codec.decode request.data = some newCircuit →
      newCircuit.sessionId ≠ place.sid) :
    place.Bystands (fun _ => True) (handleNewCircuit node request remotePeerId) := by
  unfold handleNewCircuit
  cases hdec : (Codec.decode request.data : Option NewCircuit) with
  | none => exact .ret trivial
  | some newCircuit =>
    have hx := h newCircuit hdec
    refine .bind bystands_look fun _ _ => .ite (fun _ => .ret trivial) fun _ => ?_
    refine .bind (bystands_getSession hx) fun session _ => ?_
    cases session with
    | none => exact .ret trivial
    | some session =>
      refine .ite (fun _ => .ret trivial) fun _ => .bind bystands_look fun toClientInfo _ => ?_
      cases toClientInfo with
      | none => exact bystands_buildAsEntry hx
      | some _ => exact bystands_buildAsEntryAndAccess hx

theorem bystands_unregister : place.Bystands (fun _ => True) (unregister peer) := by
  have hpeer : place.Bystands (fun _ => True)
      (Prog.update (Update.peer peer.toBase58 none).apply fun s => s.clientPeerMap peer.toBase58) :=
    bystands_update (fun _ _ => trivial) fun _ _ => trivial
  refine .bind hpeer fun hash _ => ?_
  cases hash with
  | none => exact .ret trivial
  | some hash => exact bystands_write (u := .wn hash none) fun _ _ => trivial

theorem bystands_handleNewProxy {request : Request} :
    place.Bystands (fun _ => True) (handleNewProxy request peer) := by
  refine .bind (bystands_try _) fun _ _ => .bind (bystands_try _) fun hash _ => ?_
  refine .bind bystands_look fun _ _ => .ite (fun _ => bystands_sendAck) fun _ => ?_
  refine .bind (bystands_write (u := .peer _ (some hash)) fun _ _ => trivial) fun _ _ => ?_
  exact .bind (bystands_write (u := .wn hash (some _)) fun _ _ => trivial) fun _ _ =>
    bystands_sendAck

theorem bystands_handleDecryptGossip {request : Request} :
    place.Bystands (fun _ => True) (handleDecryptGossip node request peer) := by
  refine .bind (bystands_try _) fun _ _ => ?_
  have hreply (plainText : Bytes) : place.Bystands (fun _ => True) (do
      if (Codec.decode plainText : Option Negotiate).isSome then
        Node.sendAck peer ⟨request.reqId, true, plainText⟩) :=
    .ite (fun _ => bystands_sendAck) fun _ => .ret trivial
  cases Crypto.kind node.keypair with
  | ed25519 => exact .bind (bystands_try _) fun plainText _ => hreply plainText
  | secp256k1 => exact .bind (bystands_try _) fun plainText _ => hreply plainText
  | other => exact .fail rfl

theorem bystands_handleNegPlainText {request : Request} :
    place.Bystands (fun _ => True) (handleNegPlainText request peer) := by
  refine .bind (bystands_try _) fun _ _ => .bind bystands_look fun _ _ => ?_
  refine .bind (bystands_try _) fun _ _ => .bind (bystands_try _) fun _ _ => ?_
  refine .bind (bystands_ask (a := .randomBytes) trivial) fun _ _ => .ite (fun _ => ?_) fun _ => ?_
  · exact .bind (bystands_try _) fun _ _ => bystands_sendAck
  · exact .bind (bystands_try _) fun _ _ => bystands_sendAck

theorem bystands_handleMainNetPeers {request : Request} :
    place.Bystands (fun _ => True) (handleMainNetPeers request peer) := by
  refine .bind (bystands_try _) fun msg _ => ?_
  refine .bind (bystands_ask (a := .getMainNets msg.max) trivial) fun peers _ => ?_
  cases peers <;> exact bystands_sendAck

theorem bystands_processProxyRequest {r : NodeProxyRequest} (hr : place.ProxyApart r) :
    place.Bystands (fun _ => True) (processProxyRequest node r) := by
  unfold processProxyRequest
  cases r.peerOperation with
  | some op =>
    cases op
    exact bystands_unregister
  | none =>
    refine .bind (bystands_unwrap _) fun request hrequest => ?_
    refine .ite (fun _ => bystands_handleDecryptGossip) fun _ => ?_
    refine .ite (fun _ => bystands_handleNegPlainText) fun _ => ?_
    refine .ite (fun _ => bystands_handleMainNetPeers) fun _ => ?_
    refine .ite (fun _ => bystands_handleNewProxy) fun _ => ?_
    refine .ite (fun _ => bystands_unregister) fun _ => ?_
    refine .ite (fun htype => ?_) fun _ => .ret trivial
    exact .bind (bystands_handleNewCircuit (hr request hrequest htype)) fun _ _ => bystands_sendAck

theorem bystands_buildAsAccess {negotiate : Negotiate} (hx : negotiate.sessionId ≠ place.sid)
    {des : String} : place.Bystands (fun _ => True) (buildAsAccess node negotiate des) := by
  refine .bind (bystands_ask (a := .getMainNets 100) trivial) fun nodeinfos _ => ?_
  cases nodeinfos with
  | none => exact .ret trivial
  | some nodeinfos =>
    refine .bind (bystands_ask (a := .randomPeerId) trivial) fun _ _ => ?_
    refine .bind (bystands_tryPeers hx) fun found _ => ?_
    cases found with
    | none => exact bystands_handleCloseSession hx
    | some relay =>
      refine .bind bystands_externalSendNodeRequestAndWait fun ack _ => ?_
      refine .ite (fun _ => bystands_handleCloseSession hx) fun _ => ?_
      refine .bind (bystands_getSession hx) fun o ho => ?_
      cases o with
      | none => exact .ret trivial
      | some session => exact bystands_sendRelayTwoway (ho session rfl) (by simp)

theorem bystands_processPublishRequest {data : Bytes} :
    place.Bystands (fun _ => True) (processPublishRequest node data) := by
  refine .bind (bystands_try _) fun _ _ => .bind bystands_look fun _ _ =>
    .ite (fun _ => ?_) fun _ => .ret trivial
  refine .bind bystands_look fun _ _ => .bind (bystands_try _) fun _ _ => ?_
  refine .bind bystands_sendProxyRequestAndWait fun ack hack => ?_
  refine .ite (fun _ => .ret trivial) fun _ => .bind (bystands_unwrap _) fun negotiate hdec => ?_
  have hx := hack negotiate hdec
  refine .bind (bystands_newSessionToPeer hx) fun stream _ => ?_
  cases stream with
  | none => exact bystands_handleCloseSession hx
  | some _ =>
    refine .ite (fun _ => ?_) fun _ => bystands_buildAsAccess hx
    refine .bind (bystands_getSession hx) fun o ho => ?_
    cases o with
    | none => exact .ret trivial
    | some session => exact bystands_sendRelayTwoway (ho session rfl) (by simpa using hx)

theorem bystands_processCmdRequest {r : NodeCmdRequest} (hr : place.CmdApart r) :
    place.Bystands (fun _ => True) (processCmdRequest r) := by
  refine .bind (bystands_unwrap _) fun request hrequest => .ite (fun htype => ?_) fun _ => .ret trivial
  refine .bind (bystands_unwrap _) fun msg hdec => ?_
  have hx := hr request hrequest htype msg hdec
  refine .bind (bystands_getSession hx) fun o ho => ?_
  cases o with
  | none => exact .bind (bystands_handleCloseSession hx) fun _ _ => bystands_sendAck
  | some session =>
    refine .ite (fun _ => ?_) fun _ => .bind (bystands_try _) fun sink _ => ?_
    · exact .bind bystands_sendAck fun _ _ =>
        bystands_sendRelayTwoway (ho session rfl) (by simpa using hx)
    · refine .bind (bystands_newSessionToPeer hx) fun stream _ => ?_
      cases stream with
      | none => exact .bind (bystands_handleCloseSession hx) fun _ _ => bystands_sendAck
      | some _ => exact bystands_sendAck

/-- A task that serves other sessions is a bystander, and so is what it goes on with. -/
theorem bystands_body {t : Task} (ht : place.TaskApart t) :
    place.Bystands place.Next (t.body place.node) := by
  have hdone {p : Async Unit} (hp : place.Bystands (fun _ => True) p) :
      place.Bystands place.Next (do
        p
        return none) :=
    .bind hp fun _ _ => .ret next_none
  have hloop {t : Task} {a : Act} {g : a.Res → Async Unit} (ht : place.TaskApart t)
      (ha : place.ActApart a) (hg : ∀ r, place.Answers a r → place.Bystands (fun _ => True) (g r)) :
      place.Bystands place.Next (do
        g (← Prog.call a)
        return some t) :=
    .bind (bystands_call ha) fun r hr => .bind (hg r hr) fun _ _ =>
      .ret fun _ h => Option.some.inj h ▸ ht
  cases t with
  | relayEventHandler => exact bystands_relayEventHandler ht.1 ht.2
  | writeRelayArc => exact .bind (bystands_writeRelayArc ht.1 ht.2) fun _ _ => .ret next_none
  | processHandshake => exact hdone (bystands_processHandshake ht.1 ht.2)
  | processProxyRequest =>
    exact hloop (a := .nextProxyRequest) trivial trivial fun _ => bystands_processProxyRequest
  | processCmdRequest =>
    exact hloop (a := .nextCmdRequest) trivial trivial fun _ => bystands_processCmdRequest
  | processPublishRequest =>
    exact hloop (a := .nextGossip) trivial trivial fun _ _ => bystands_processPublishRequest
  | registerProxy => exact .bind bystands_registerProxy fun _ _ => .ret next_none
  | getMainNets => exact .bind bystands_getMainNets fun _ _ => .ret next_none
  | dial => exact .bind bystands_dial fun _ _ => .ret next_none
  | disconnectCircuit => exact hdone (bystands_handleCloseSession ht)

end

/-! ### The circuits of a client -/

section

variable {conn : CircuitConn} {x : String}

theorem bystands_transport {ref : ℕ}
    (href : ∀ mine r, place.circuit = some mine → mine.transportState = some r → ref ≠ r)
    {next : Crypto.Transport → Option (Crypto.Transport × Bytes)} :
    place.Bystands (fun _ => True) (Prog.update
      (fun s => match (s.transports ref).bind next with
        | none => s
        | some (t, _) => { s with transports := Function.update s.transports ref (some t) })
      fun s => (s.transports ref).bind next) := by
  refine .update (fun s hs => Same.moves ?_ (List.forall_mem_nil _) (List.forall_mem_nil _)) fun _ _ => trivial
  cases (s.transports ref).bind next with
  | none => exact .refl hs
  | some written =>
    refine ⟨{ hs with }, fun mine r hm hr => ?_, fun _ _ => rfl, fun _ _ => rfl⟩
    exact Function.update_of_ne (href mine r hm hr).symm _ _

omit [Codec] in
theorem ConnApart.ref_ne (h : place.ConnApart conn) {ref : ℕ} (href : conn.transportState = some ref)
    (mine : CircuitConn) (r : ℕ) (hm : place.circuit = some mine)
    (hr : mine.transportState = some r) : ref ≠ r :=
  fun he => h.transport mine r hm hr (he ▸ href)

/-- Sending on the circuit of another session -/
theorem bystands_sendMessage (hx : x ≠ place.sid) {message : Bytes} :
    place.Bystands (fun _ => True) (Node.sendMessage x message) := by
  refine .bind (bystands_getCircuit hx) fun o ho => .bind (bystands_unwrap o) fun conn hconn => ?_
  have happart := ho conn hconn
  refine .ite (fun _ => .ret trivial) fun _ => ?_
  unfold CircuitConn.write
  cases href : conn.transportState with
  | none => exact .ret trivial
  | some ref =>
    refine .bind (.bind (bystands_transport (happart.ref_ne href)) fun _ _ =>
      .bind (bystands_try _) fun _ _ => .ret trivial) fun msg (_ : True) => ?_
    exact bystands_writePayloadArc happart.stream happart.id

/-- Reading from the circuit of another session -/
theorem bystands_readConn (happart : place.ConnApart conn) {buf : Bytes} :
    place.Bystands (fun _ => True) (conn.read buf) := by
  unfold CircuitConn.read
  cases href : conn.transportState with
  | none => exact .ret trivial
  | some ref =>
    refine .bind (bystands_nextData happart) fun _ _ => .bind (bystands_try _) fun _ _ => ?_
    refine .bind (.bind (bystands_transport (happart.ref_ne href)) fun _ _ =>
      .bind (bystands_try _) fun _ _ => .ret trivial) fun msg (_ : True) => ?_
    exact bystands_try _

end

end Place

end WhiteNoise
