import WhiteNoise.Acks.Silent
import WhiteNoise.Session.Operations

/-! # Opening and joining a session among others

The functions that attach a stream to a session look at the session under one
lock and write it under another. What they do is read off the entry that they
see.
-/

namespace WhiteNoise

open Wire Process RequestLoops

variable [Codec] [Crypto]

/-! ## The others -/

/-- The streams that are there stay, the ones that are held in their place. -/
structure Session.Stays (held : WrappedStream → Prop) (session session' : Session) : Prop where
  role : session'.sessionRole = session.sessionRole
  early : ∀ w, session.pairStream.earlyStream = some w →
    ∃ w', session'.pairStream.earlyStream = some w' ∧ (held w → w' = w)
  later : ∀ w, session.pairStream.laterStream = some w →
    ∃ w', session'.pairStream.laterStream = some w' ∧ (held w → w' = w)

/-- The session is neither opened nor closed, its role does not change, and the streams that are
held stay where they are. -/
def Undisturbed (held : WrappedStream → Prop) (sid : String) (s s' : Shared) : Prop :=
  Option.Rel (Session.Stays held) (s.sessionMap sid) (s'.sessionMap sid)

section

variable {held : WrappedStream → Prop} {sid : String} {s s' : Shared} {session session' : Session}
  {w : WrappedStream}

omit [Codec] [Crypto] in
theorem Session.Stays.refl : session.Stays held session where
  role := rfl
  early w h := ⟨w, h, fun _ => rfl⟩
  later w h := ⟨w, h, fun _ => rfl⟩

omit [Codec] [Crypto] in
theorem Session.Stays.trans {session'' : Session} (h : session.Stays held session')
    (h' : session'.Stays held session'') : session.Stays held session'' where
  role := h'.role.trans h.role
  early w hw := by
    obtain ⟨w', hw', heq⟩ := h.early w hw
    obtain ⟨w'', hw'', heq'⟩ := h'.early w' hw'
    refine ⟨w'', hw'', ?_⟩
    rintro hheld
    obtain rfl := heq hheld
    exact heq' hheld
  later w hw := by
    obtain ⟨w', hw', heq⟩ := h.later w hw
    obtain ⟨w'', hw'', heq'⟩ := h'.later w' hw'
    refine ⟨w'', hw'', ?_⟩
    rintro hheld
    obtain rfl := heq hheld
    exact heq' hheld

omit [Codec] [Crypto] in
theorem Session.Stays.ready (h : session.Stays held session') (hr : session.ready) :
    session'.ready := by
  simp only [Session.ready, Bool.and_eq_true, Option.isSome_iff_exists] at hr ⊢
  obtain ⟨⟨early, he⟩, later, hl⟩ := hr
  obtain ⟨early', he', -⟩ := h.early early he
  obtain ⟨later', hl', -⟩ := h.later later hl
  exact ⟨⟨early', he'⟩, later', hl'⟩

omit [Codec] in
theorem undisturbed_of_eq (h : s'.sessionMap sid = s.sessionMap sid) :
    Undisturbed held sid s s' := by
  rw [Undisturbed, h]
  cases s.sessionMap sid with
  | none => exact .none
  | some session => exact .some .refl

omit [Codec] in
theorem Undisturbed.none (h : Undisturbed held sid s s') (hs : s.sessionMap sid = none) :
    s'.sessionMap sid = none := by
  rw [Undisturbed, hs] at h
  generalize s'.sessionMap sid = entry at h
  cases h
  rfl

omit [Codec] in
theorem Undisturbed.some (h : Undisturbed held sid s s') (hs : s.sessionMap sid = some session) :
    ∃ session', s'.sessionMap sid = some session' ∧ session.Stays held session' := by
  rw [Undisturbed, hs] at h
  generalize s'.sessionMap sid = entry at h
  cases h with
  | some h => exact ⟨_, rfl, h⟩

/-- The stream is one of the two of the entry. -/
def Part (w : WrappedStream) (entry : Option Session) : Prop :=
  ∃ session, entry = some session ∧
    (session.pairStream.earlyStream = some w ∨ session.pairStream.laterStream = some w)

omit [Codec] [Crypto] in
theorem part_attach {entry : Option Session} {role : Int32} :
    Part w (some (Session.attach sid role w entry)) := by
  cases entry with
  | none => exact ⟨_, rfl, Or.inl rfl⟩
  | some session => exact ⟨_, rfl, Or.inr rfl⟩

omit [Codec] in
theorem part_undisturbed (h : Undisturbed held sid s s') (hheld : held w)
    (hs : Part w (s.sessionMap sid)) :
    Part w (s'.sessionMap sid) := by
  obtain ⟨session, hsession, hpart⟩ := hs
  obtain ⟨session', hsession', hstays⟩ := h.some hsession
  refine ⟨session', hsession', ?_⟩
  rcases hpart with he | hl
  · obtain ⟨w', hw, heq⟩ := hstays.early w he
    exact Or.inl (hw.trans (congrArg some (heq hheld)))
  · obtain ⟨w', hw, heq⟩ := hstays.later w hl
    exact Or.inr (hw.trans (congrArg some (heq hheld)))

omit [Codec] in
/-- A session that is not refused is not refused later on. -/
theorem refused_of_undisturbed {msg : SetSessionIdMsg}
    (h : Undisturbed held msg.sessionId s s')
    (hsome : s'.sessionMap msg.sessionId = some session) (hrefused : Session.isRefused msg session) :
    ∃ session, s.sessionMap msg.sessionId = some session ∧ Session.isRefused msg session := by
  cases hs : s.sessionMap msg.sessionId with
  | none =>
    rw [h.none hs] at hsome
    cases hsome
  | some before =>
    obtain ⟨session', hsession', hstays⟩ := h.some hs
    obtain rfl := Option.some.inj (hsome.symm.trans hsession')
    refine ⟨before, rfl, ?_⟩
    simp only [Session.isRefused, decide_eq_true_eq, Bool.not_eq_true'] at hrefused ⊢
    obtain ⟨hentry, hrelay, hready⟩ := hrefused
    refine ⟨hstays.role ▸ hentry, hrelay, ?_⟩
    cases hr : before.ready with
    | false => rfl
    | true =>
      rw [hstays.ready hr] at hready
      cases hready

end

/-! ## Opening and joining -/

/-- The acknowledgement of a `SetSessionId` frame. -/
def joinAck (stream : WrappedStream) (relayId : String) : Async Unit :=
  Node.sendAck stream.remotePeerId ⟨relayId, true, []⟩

/-- What follows once the later stream is replaced. -/
def disconnectLater (later stream : WrappedStream) (sid relayId : String) : Async Unit := do
  writeDisconnectArc later sid
  Async.close later
  joinAck stream relayId

/-- Offer the session over the stream, and wait until the peer has acknowledged. -/
def Node.offerOver (stream : WrappedStream) (sid : String) (otherRole : Int32) :
    Async (Option WrappedStream) := do
  let _ ← writeRelayArc stream (newRelay .wake [])
  let key ← writeRelayArc stream (newRelaySetSession sid otherRole)
  let receiver ← Async.registerWaiter key
  let _ack ← Async.awaitAck receiver
  Async.spawn (.relayEventHandler stream (some sid))
  return some stream

/-- Open a stream to the peer and offer it the session. -/
def Node.offerSession (peerId : PeerId) (sid : String) (otherRole : Int32) :
    Async (Option WrappedStream) := do
  match ← Async.newRelayStream peerId with
  | none => return none
  | some stream => Node.offerOver stream sid otherRole

/-- A session is offered first, and then its entry is written. -/
theorem Node.newSessionToPeer_offer (peerId : PeerId) (sid : String) (myRole otherRole : Int32) :
    Node.newSessionToPeer peerId sid myRole otherRole = (do
      match ← Node.offerSession peerId sid otherRole with
      | none => return none
      | some stream =>
        Node.putSession stream sid myRole
        return some stream) := by
  rw [Node.newSessionToPeer_eq, Node.offerSession, bind_assoc]
  congr
  funext stream
  cases stream with
  | none => rfl
  | some stream =>
    simp only [Node.offerOver, writeRelayWakeArc, writeSetSessionWithRoleArc, bind_assoc,
      Prog.pure_eq, Prog.ret_bind]

section

variable {node : Node} {rely : Shared → Shared → Prop} {proviso : Proviso Shared Choice Act.Res}
  {s : Shared} {msg : SetSessionIdMsg} {w : WrappedStream} {relayId sid : String}

/-- The program leaves the sessions alone. -/
abbrev Calm {α : Type} (p : Async α) : Prop :=
  p.Within (fun f => ∀ s, (f s).sessionMap = s.sessionMap) (fun _ => True) fun _ => True

/-- What is known of the entry of a session, and kept by the others, is known after a calm
program. -/
theorem entry_calm {α : Type} {p : Async α} {r : TurnRecord α} {P : Option Session → Prop}
    (hrely : ∀ s s', rely s s' → P (s.sessionMap sid) → P (s'.sessionMap sid)) (hp : Calm p)
    (h : Turn node rely proviso p s r) (hs : P (s.sessionMap sid)) :
    P (r.state.sessionMap sid) := by
  refine h.state_within (I := fun s => P (s.sessionMap sid)) hrely ?_ ?_ hp hs
  · rintro f hf s hs
    rw [hf s]
    exact hs
  · rintro a - c s x hx hs
    rw [(reply_sameMaps hx).sessionMap]
    exact hs

omit [Codec] in
theorem calm_joinAck : Calm (joinAck w relayId) := ⟨trivial, fun _ => trivial⟩

theorem calm_writeRelayArc {relay : Relay} : Calm (writeRelayArc w relay) :=
  ⟨trivial, fun _ => ⟨trivial, fun _ => trivial⟩⟩

theorem calm_disconnectLater {later : WrappedStream} :
    Calm (disconnectLater later w sid relayId) := by
  have hframe : Calm (writeDisconnectArc later sid) :=
    Prog.Within.bind (calm_writeRelayArc.mono (fun _ h => h) (fun _ h => h) fun _ _ => trivial)
  have hrest : Calm (do
      Async.close later
      joinAck w relayId) := ⟨trivial, fun _ => calm_joinAck⟩
  exact Prog.Within.bind (hframe.mono (fun _ h => h) (fun _ h => h) fun _ _ => hrest)

omit [Codec] in
theorem calm_sendRelayTwoway {session : Session} {relay : Relay} :
    Calm (sendRelayTwoway session relay) := by
  unfold sendRelayTwoway
  cases session.pairStream.earlyStream <;> cases session.pairStream.laterStream
  · trivial
  · exact ⟨trivial, fun _ => trivial⟩
  · exact ⟨trivial, fun _ => trivial⟩
  · exact ⟨trivial, fun _ => ⟨trivial, fun _ => trivial⟩⟩

/-- An offer puts a waiter into the bus and acknowledges nothing. -/
theorem offerSession_within {peer : PeerId} {otherRole : Int32} :
    (Node.offerSession peer sid otherRole).Within (fun f => ∃ key, f = Shared.register key)
      (fun a => ∀ q, a ≠ .send (.ackRequest q)) fun _ => True := by
  have hframe {α : Type} {w : WrappedStream} {relay : Relay} {g : String → Async α}
      (hg : ∀ key, (g key).Within (fun f => ∃ key, f = Shared.register key)
        (fun a => ∀ q, a ≠ .send (.ackRequest q)) fun _ => True) :
      (writeRelayArc w relay >>= g).Within (fun f => ∃ key, f = Shared.register key)
        (fun a => ∀ q, a ≠ .send (.ackRequest q)) fun _ => True :=
    ⟨by simp, fun _ => ⟨by simp, fun _ => hg _⟩⟩
  constructor
  · rintro q h
    cases h
  · rintro (_ | stream)
    · trivial
    · change (Node.offerOver stream sid otherRole).Within _ _ _
      apply hframe
      rintro -
      apply hframe
      rintro key
      refine ⟨⟨key, rfl⟩, fun s => ⟨by simp, ?_⟩⟩
      rintro (_ | ack)
      · trivial
      · exact ⟨by simp, fun _ => trivial⟩

theorem calm_offerSession {peer : PeerId} {otherRole : Int32} :
    Calm (Node.offerSession peer sid otherRole) := by
  refine offerSession_within.mono ?_ (fun _ _ => trivial) fun _ h => h
  rintro f ⟨key, rfl⟩ s
  rfl

theorem silent_offerSession {peer : PeerId} {otherRole : Int32} :
    Silent (Node.offerSession peer sid otherRole) := by
  refine offerSession_within.mono ?_ (fun _ h => h) fun _ h => h
  rintro f ⟨key, rfl⟩ s
  rfl

/-- No acknowledgement that the run waits for is lost. -/
def Heard {α : Type} (r : TurnRecord α) : Prop :=
  ∀ receiver, (⟨.awaitAck receiver, none⟩ : Sigma Act.Res) ∉ r.asked

/-- An offer ends without a stream, or with a stream that the peer has acknowledged. -/
theorem turn_offerSession {peer : PeerId} {otherRole : Int32}
    {r : TurnRecord (Option WrappedStream)} (hheard : Heard r)
    (h : Turn node rely proviso (Node.offerSession peer sid otherRole) s r) :
    ∃ o, r.answer = some o := by
  obtain ⟨s₁, r₁, -, ⟨stream, -, -, h₁, rfl⟩ | ⟨h₁, rfl⟩⟩ := turn_newRelayStream h
  · change Turn node rely proviso (Node.offerOver stream sid otherRole) _ r₁ at h₁
    obtain ⟨s₂, s₃, b, r₂, -, -, h₂, rfl⟩ := turn_writeRelayArc h₁
    obtain ⟨s₄, s₅, b', r₃, -, -, h₃, rfl⟩ := turn_writeRelayArc h₂
    obtain ⟨s₆, -, -, -, h₄⟩ := h₃
    obtain ⟨s₇, o, r₄, -, h₅, rfl⟩ := turn_awaitAck h₄
    cases o with
    | none =>
      exfalso
      refine hheard s₆.nextOneshot ?_
      simp only [Record.asked_after, List.mem_cons, true_or, or_true]
    | some ack =>
      obtain ⟨s₈, r₅, -, hend, rfl⟩ := turn_spawn h₅
      obtain rfl : r₅ = _ := hend
      exact ⟨some stream, rfl⟩
  · obtain rfl : r₁ = _ := h₁
    exact ⟨none, rfl⟩

omit [Codec] in
/-- A close only closes streams. -/
theorem handleCloseSession_closes : (Node.handleCloseSession sid).Within (fun _ => True)
    (fun a => ∃ w, a = .close w) fun _ => True := by
  have htail : (do
      Async.removeCircuit sid
      Async.removeProbe sid : Async Unit).Within (fun _ => True) (fun a => ∃ w, a = .close w)
        fun _ => True := ⟨trivial, fun _ => ⟨trivial, fun _ => trivial⟩⟩
  obtain ⟨k, hk, hrest⟩ :=
    Node.handleCloseSession_rest sid htail fun w p hp => ⟨⟨w, rfl⟩, fun _ => hp⟩
  rw [hk]
  exact ⟨trivial, hrest⟩

/-- A close ends, and the session has no entry then. -/
theorem turn_handleCloseSession {r : TurnRecord Unit}
    (hrely : ∀ s s', rely s s' → s.sessionMap sid = none → s'.sessionMap sid = none)
    (h : Turn node rely .free (Node.handleCloseSession sid) s r) :
    r.answer = some () ∧ r.state.sessionMap sid = none := by
  constructor
  · obtain ⟨a, ha, -⟩ := (survives_close fun _ _ => trivial).amid h
    exact ha
  · obtain ⟨k, hk, hrest⟩ := handleCloseSession_eq sid
    rw [hk] at h
    obtain ⟨s₁, -, -, -, h₁⟩ := h
    refine entry_calm (P := fun entry => entry = none) hrely ?_ h₁ ?_
    · exact (hrest s₁).mono (fun _ h => h) (fun _ _ => trivial) fun _ h => h
    · exact Function.update_self ..

/-- What is left of a run of `handle_set_session` once it has seen the entry of its session in the
state. The stream is attached in a later one. -/
inductive Joins (node : Node) (rely : Shared → Shared → Prop)
    (proviso : Proviso Shared Choice Act.Res) (msg : SetSessionIdMsg) (w : WrappedStream)
    (relayId : String) (s : Shared) (r : TurnRecord Unit) : Prop
  | opened (hnone : s.sessionMap msg.sessionId = none) (s' : Shared) (hs : rely s s')
      (h : Turn node rely proviso (joinAck w relayId)
        (s'.setEntry msg.sessionId (some (Session.attach msg.sessionId msg.role w none))) r)
  | refused (session : Session) (hsome : s.sessionMap msg.sessionId = some session)
      (hrefused : Session.isRefused msg session)
      (h : Turn node rely proviso (Node.handleCloseSession msg.sessionId) s r)
  | replaced (session : Session) (later : WrappedStream)
      (hsome : s.sessionMap msg.sessionId = some session)
      (hrole : session.sessionRole = SessionRole.entryRole.toI32 ∧
        msg.role = SessionRole.relayRole.toI32)
      (hready : session.ready) (hlater : session.pairStream.laterStream = some later)
      (s' : Shared) (hs : rely s s')
      (h : Turn node rely proviso (disconnectLater later w msg.sessionId relayId)
        (s'.setEntry msg.sessionId
          (some (Session.attach msg.sessionId msg.role w (some session)))) r)
  | joined (session current : Session) (hsome : s.sessionMap msg.sessionId = some session)
      (hrole : ¬ (session.sessionRole = SessionRole.entryRole.toI32 ∧
        msg.role = SessionRole.relayRole.toI32)) (s' : Shared) (hs : rely s s')
      (hcurrent : s'.sessionMap msg.sessionId = some current)
      (h : Turn node rely proviso (joinAck w relayId)
        (s'.setEntry msg.sessionId
          (some (Session.attach msg.sessionId msg.role w (some current)))) r)
  | vanished (session : Session) (hsome : s.sessionMap msg.sessionId = some session)
      (s' : Shared) (hs : rely s s') (hnone : s'.sessionMap msg.sessionId = none)

theorem turn_handleSetSession {r : TurnRecord Unit}
    (h : Turn node rely proviso (handleSetSession msg w relayId) s r) :
    ∃ s', rely s s' ∧ Joins node rely proviso msg w relayId s' r := by
  simp only [handleSetSession, Async.getSession, Prog.read_bind] at h
  obtain ⟨s₁, -, hs₁, -, h⟩ := h
  refine ⟨s₁, hs₁, ?_⟩
  beta_reduce at h
  cases hentry : s₁.sessionMap msg.sessionId with
  | none =>
    rw [hentry] at h
    obtain ⟨s₂, -, hs₂, -, h⟩ := h
    exact .opened hentry s₂ hs₂ h
  | some session =>
    rw [hentry] at h
    dsimp only at h
    split at h
    · next hrole =>
      split at h
      · next hready =>
        obtain ⟨later, hlater⟩ : ∃ later, session.pairStream.laterStream = some later := by
          simp only [Session.ready, Bool.and_eq_true, Option.isSome_iff_exists] at hready
          exact hready.2
        rw [hlater] at h
        obtain ⟨s₂, -, hs₂, -, h⟩ := h
        exact .replaced session later hentry hrole hready hlater s₂ hs₂ h
      · next hready =>
        have hrefused : Session.isRefused msg session := by
          simp [Session.isRefused, hrole.1, hrole.2, hready]
        exact .refused session hentry hrefused h
    · next hrole =>
      obtain ⟨s₂, -, hs₂, -, h⟩ := h
      cases hcurrent : s₂.sessionMap msg.sessionId with
      | none => exact .vanished session hentry s₂ hs₂ hcurrent
      | some current =>
        simp only [hcurrent, Prog.bind_eq, Prog.ret_bind, Option.isSome_some, if_true,
          Shared.joinSession] at h
        exact .joined session current hentry hrole s₂ hs₂ hcurrent h

/-- What is left of a run of `new_session_to_peer`, once acknowledged, when it has seen the entry of
its session in the state. -/
inductive Puts (node : Node) (rely : Shared → Shared → Prop)
    (proviso : Proviso Shared Choice Act.Res) (w : WrappedStream) (sid : String) (myRole : Int32)
    (s : Shared) (r : TurnRecord Unit) : Prop
  | opened (hnone : s.sessionMap sid = none) (s' : Shared) (hs : rely s s')
      (h : r = ⟨some (), s'.setEntry sid (some (Session.attach sid myRole w none)), [], [], []⟩)
  | joined (session current : Session) (hsome : s.sessionMap sid = some session) (s' s'' : Shared)
      (hs : rely s s') (hs' : rely s' s'') (hcurrent : s'.sessionMap sid = some current)
      (h : r = ⟨some (), s''.setEntry sid (some (Session.attach sid myRole w (some current))), [],
        [], []⟩)
  | vanished (session : Session) (hsome : s.sessionMap sid = some session) (s' : Shared)
      (hs : rely s s') (hnone : s'.sessionMap sid = none)

theorem turn_putSession {myRole : Int32} {r : TurnRecord Unit}
    (h : Turn node rely proviso (Node.putSession w sid myRole) s r) :
    ∃ s', rely s s' ∧ Puts node rely proviso w sid myRole s' r := by
  simp only [Node.putSession, Async.getSession, Prog.read_bind] at h
  obtain ⟨s₁, -, hs₁, -, h⟩ := h
  refine ⟨s₁, hs₁, ?_⟩
  beta_reduce at h
  cases hentry : s₁.sessionMap sid with
  | none =>
    simp only [hentry, Option.isNone_none, if_true] at h
    obtain ⟨s₂, -, hs₂, -, h⟩ := h
    exact .opened hentry s₂ hs₂ h
  | some session =>
    simp only [hentry, Option.isNone_some, Bool.false_eq_true, if_false] at h
    obtain ⟨s₂, -, hs₂, -, h⟩ := h
    cases hcurrent : s₂.sessionMap sid with
    | none => exact .vanished session hentry s₂ hs₂ hcurrent
    | some current =>
      simp only [hcurrent, Prog.ret_bind, Prog.unwrap_some] at h
      obtain ⟨s₃, -, hs₃, -, h⟩ := h
      exact .joined session current hentry s₂ s₃ hs₂ hs₃ hcurrent h

/-- An offer that is refused is a close. -/
theorem turn_refused {session : Session} {r : TurnRecord Unit} (hs : rely s s)
    (hsome : s.sessionMap msg.sessionId = some session) (hrefused : Session.isRefused msg session)
    (h : Turn node rely .free (Node.handleCloseSession msg.sessionId) s r) :
    Turn node rely .free (handleSetSession msg w relayId) s r := by
  have hroles : session.sessionRole = SessionRole.entryRole.toI32 ∧
      msg.role = SessionRole.relayRole.toI32 ∧ session.ready = false := by
    simpa [Session.isRefused] using hrefused
  simp only [handleSetSession, Async.getSession, Prog.read_bind]
  refine .here .go hs ?_
  simp only [hsome, hroles.1, hroles.2.1, hroles.2.2, and_self, if_true, Bool.false_eq_true,
    if_false]
  exact h

/-- A request that is answered at once. -/
def Instant (a : Act) : Prop := a.Quiet ∨ ∃ t, a = .spawn t

omit [Codec] in
theorem heard_of_instant {α : Type} {r : TurnRecord α} (h : ∀ x ∈ r.asked, Instant x.1) :
    Heard r := by
  rintro receiver hmem
  rcases h _ hmem with hquiet | ⟨t, ht⟩
  · exact hquiet
  · cases ht

/-- A program whose requests are answered at once has a run. -/
theorem exists_instant {p : Async Unit} (hp : p.Within (fun _ => True) Instant fun _ => True)
    (node : Node) (hrefl : ∀ s, rely s s) (s : Shared) :
    ∃ r, Turn node rely .free p s r ∧ Heard r := by
  have hreply (a : Act) (ha : Instant a) (s : Shared) :
      ∃ c x, (nodeSemantics node).reply a c s = some x := by
    rcases ha with hquiet | ⟨t, rfl⟩
    · exact reply_of_quiet hquiet s
    · exact ⟨.go, _, rfl⟩
  obtain ⟨r, hrun, hasked⟩ : ∃ r, Turn node rely .free p s r ∧ ∀ x ∈ r.asked, Instant x.1 :=
    Semantics.exists_amid_within hrefl hreply .go hp s
  exact ⟨r, hrun, heard_of_instant hasked⟩

theorem exists_prompt {p : Async Unit} (hp : Prompt p) (node : Node) (hrefl : ∀ s, rely s s)
    (s : Shared) : ∃ r, Turn node rely .free p s r ∧ Heard r :=
  exists_instant (hp.mono (fun _ h => h) (fun _ h => Or.inl h) fun _ h => h) node hrefl s

/-! ## An offer that is taken up -/

/-- Every waiter has been answered. -/
def Shared.heard (s : Shared) : Shared := { s with oneshots := fun _ => .sent ⟨"", true, []⟩ }

/-- The rest of the offer has a run that ends with the stream and leaves the sessions alone. -/
def Taken (node : Node) (rely : Shared → Shared → Prop) (w : WrappedStream)
    (p : Async (Option WrappedStream)) (s : Shared) : Prop :=
  ∃ r, Turn node rely .free p s r ∧ r.answer = some (some w) ∧
    r.state.sessionMap = s.sessionMap ∧ Heard r

omit [Codec] in
theorem Heard.after {α : Type} {r : TurnRecord α} {x : Sigma Act.Res} {os : List Output}
    {ts : List Task} (hx : ∀ receiver, x ≠ ⟨.awaitAck receiver, none⟩) (h : Heard r) :
    Heard (r.after x os ts) := by
  rintro receiver hmem
  rcases List.mem_cons.mp hmem with heq | hmem
  · exact hx receiver heq.symm
  · exact h receiver hmem

theorem Taken.act {a : Act} {k : a.Res → Async (Option WrappedStream)} {s' : Shared} (c : Choice)
    {x : Reply Shared Task Output a.Res} (hs : rely s s') (hsame : s'.sessionMap = s.sessionMap)
    (hx : Shared.reply a c s' = some x)
    (hlost : ∀ receiver, (⟨a, x.answer⟩ : Sigma Act.Res) ≠ ⟨.awaitAck receiver, none⟩)
    (h : Taken node rely w (k x.answer) x.state) : Taken node rely w (.act a k) s := by
  obtain ⟨r, hrun, hanswer, hstate, hheard⟩ := h
  refine ⟨_, .reply hs hx hrun, hanswer, ?_, hheard.after hlost⟩
  rw [Record.state_after, hstate, (reply_sameMaps hx).sessionMap, hsame]

theorem Taken.writeRelayArc {relay : Relay} {stream : WrappedStream}
    {g : String → Async (Option WrappedStream)} (hrefl : ∀ s, rely s s)
    (h : ∀ key, Taken node rely w (g key) s) :
    Taken node rely w (WhiteNoise.writeRelayArc stream relay >>= g) s := by
  have hpadding : Shared.reply (.randomBelow (confusionBound relay)) (.bytes []) s =
      some ⟨[], s, [], []⟩ := by
    have hpos : 0 < confusionBound relay := Nat.add_pos_right _ (by decide : 0 < confusionPadLen)
    simp only [Shared.reply, List.length_nil]
    rw [if_pos hpos]
  apply Taken.act (a := .randomBelow (confusionBound relay)) (.bytes []) (hrefl s) rfl hpadding
  · rintro receiver heq
    cases heq
  apply Taken.act (a := .write stream _) .go (hrefl s) rfl rfl
  · rintro receiver heq
    cases heq
  exact h _

/-- A stream is opened and the session acknowledged, if the others let it. -/
theorem exists_offerSession {otherRole : Int32} (hrefl : ∀ s, rely s s)
    (hheard : ∀ s, rely s s.heard) (hw : w.streamId ∉ s.streams) :
    Taken node rely w (Node.offerSession w.remotePeerId sid otherRole) s := by
  have hopened : Shared.reply (.newRelayStream w.remotePeerId) (.stream (some w)) s =
      some ⟨some w, { s with streams := w.streamId :: s.streams }, [.opened w], []⟩ :=
    if_pos ⟨rfl, hw⟩
  apply Taken.act (a := .newRelayStream w.remotePeerId) (.stream (some w)) (hrefl s) rfl hopened
  · rintro receiver heq
    cases heq
  change Taken node rely w (Node.offerOver w sid otherRole) _
  apply Taken.writeRelayArc hrefl
  rintro -
  apply Taken.writeRelayArc hrefl
  rintro key
  obtain ⟨r, hrun, hrest⟩ : Taken node rely w (do
      let _ack ← Async.awaitAck s.nextOneshot
      Async.spawn (.relayEventHandler w (some sid))
      return some w)
      (Shared.register key { s with streams := w.streamId :: s.streams }) := by
    apply Taken.act (a := .awaitAck s.nextOneshot) .go (hheard _) rfl rfl
    · rintro receiver heq
      cases heq
    apply Taken.act (a := .spawn _) .go (hrefl _) rfl rfl
    · rintro receiver heq
      cases heq
    refine ⟨_, rfl, rfl, rfl, ?_⟩
    rintro receiver hmem
    cases hmem
  exact ⟨r, .here .go (hrefl _) hrun, hrest⟩

end

end WhiteNoise
