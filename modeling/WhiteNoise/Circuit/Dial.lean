import WhiteNoise.Acks.Silent
import WhiteNoise.Acks.Bus
import WhiteNoise.Network.Ideal

/-! # A dial that is refused

A dial stores the key of the callee, opens a session to the proxy and asks it
for a circuit. It takes nothing back when the proxy cannot be reached, and it
does not look at the answer of the proxy.
-/

namespace WhiteNoise.Dial

open Wire Process

section Generic

variable [Codec] [Crypto]

/-- The session identifier that a run of a dial draws. -/
def IsSession (node : Node) (remoteId : String) (r : TurnRecord String) (sid : String) : Prop :=
  ∃ localId now, node.whitenoiseId = some localId ∧
    (⟨.now, now⟩ : Sigma Act.Res) ∈ r.asked ∧ sid = Node.generateSessionId remoteId localId now

/-- No stream to the proxy is obtained. -/
def NoStream (r : TurnRecord String) : Prop :=
  ∃ proxyId, (⟨.newRelayStream proxyId, none⟩ : Sigma Act.Res) ∈ r.asked

/-- The request that was sent last is answered with `result = false`. -/
def Declined (r : TurnRecord String) : Prop :=
  ∃ asked q receiver ack, r.asked = asked ++
    [(⟨.send q, ()⟩ : Sigma Act.Res), ⟨.awaitAck receiver, some ack⟩] ∧ ack.result = false

/-- The dial reports no session, and the maps have no entry for one. -/
structure Undone (r : TurnRecord String) (sid : String) : Prop where
  answer : r.answer = none
  session : r.state.sessionMap sid = none
  circuit : r.state.circuitMap sid = none
  task : r.state.circuitTask sid = none

variable {node : Node} {remoteId localId sid : String} {s : Shared} {r : TurnRecord String}

theorem keysStay_apply (u : Update) : KeysStay s (u.apply s) := by
  rintro k hk
  cases u with
  | task sid' b =>
    simp only [Update.apply, Function.update_apply]
    split
    · rfl
    · exact hk
  | addCircuit sid' stream =>
    simp only [Update.apply]
    split <;> exact hk
  | data sid' b =>
    simp only [Update.apply]
    split <;> exact hk
  | _ => exact hk

/-- No event at the node takes a key out of `circuit_task`. -/
theorem keysStay_step {p p' : NodePool} {e : Event} {os : List Output} (hp : Acks.Bounded p)
    (h : nodeStep node p e = some (p', os)) : KeysStay p.state p'.state := by
  cases e with
  | thread i c =>
    obtain ⟨t, x, ht, hx, hs, -, -⟩ := Semantics.step_eq_some _ h
    rw [hs]
    cases t with
    | ret a =>
      cases a with
      | none => cases hx
      | some task =>
        cases hx
        exact fun _ hk => hk
    | fail => cases hx
    | atomic f k =>
      cases hx
      obtain ⟨⟨u, rfl⟩, -⟩ := hp _ (List.mem_of_getElem? ht)
      exact keysStay_apply u
    | act a k =>
      obtain ⟨x', hx', rfl⟩ := Semantics.advance_act hx
      rintro sid hk
      dsimp only
      rw [(reply_sameMaps hx').circuitTask]
      exact hk
  | ack peer ack =>
    cases h
    simp only [Shared.injectAck]
    split <;> exact fun _ hk => hk
  | proxyRequest | cmdRequest | gossip | frame =>
    cases h
    exact fun _ hk => hk
  | inbound stream =>
    simp only [nodeStep] at h
    split at h
    · cases h
    · cases h
      exact fun _ hk => hk
  | call task =>
    cases h
    exact fun _ hk => hk

theorem silent_newCircuit {remoteId localId localPeerId : String} {proxyId : PeerId} :
    Silent (Node.newCircuit remoteId localId localPeerId sid proxyId) := by
  apply (silent_unwrap _).seq
  rintro fromId
  apply (silent_unwrap _).seq
  rintro toId
  exact silent_sendProxyRequestAndWait.seq fun _ => trivial

/-- After the key is stored, a dial does not touch it. -/
theorem silent_enterCircuit : Silent (Node.enterCircuit node remoteId localId sid) := by
  apply (silent_unwrap _).seq
  rintro proxyId
  apply silent_newSessionToPeer.seq
  rintro stream
  apply (silent_unwrap _).seq
  rintro stream
  apply (silent_update (fun _ => rfl) _).seq
  rintro inChannel
  apply (silent_write fun _ => rfl).seq
  rintro -
  exact silent_newCircuit.seq fun _ => trivial

/-- A dial ends before it asks for more than the time, or it stores a key that stays. -/
theorem dial_cases (h : Turn node KeysStay .free (node.dial remoteId) s r) :
    (∀ x ∈ r.asked, ∃ now, x = ⟨.now, now⟩) ∨
      ∃ sid, IsSession node remoteId r sid ∧ (r.state.circuitTask sid).isSome := by
  cases hlocal : node.whitenoiseId with
  | none =>
    left
    simp only [Node.dial, hlocal, Prog.unwrap_none, Prog.fail_bind] at h
    obtain rfl : r = _ := h
    rintro x hx
    cases hx
  | some localId =>
    have hmalformed (hfail : node.dial remoteId = .act .now fun _ => .fail) :
        ∀ x ∈ r.asked, ∃ now, x = ⟨.now, now⟩ := by
      rw [hfail] at h
      obtain ⟨s', now, r', -, hend, rfl⟩ := turn_now h
      obtain rfl : r' = _ := hend
      rintro x hx
      exact ⟨now, List.mem_singleton.mp hx⟩
    cases hsplit : splitAtOne remoteId with
    | none =>
      left
      apply hmalformed
      simp only [Node.dial, hlocal, hsplit, Prog.unwrap_some, Prog.ret_bind, Prog.call_bind,
        Prog.unwrap_none, Prog.fail_bind]
    | some x =>
      obtain ⟨index, pub⟩ := x
      cases hdec : Crypto.bs58Decode pub with
      | none =>
        left
        apply hmalformed
        simp only [Node.dial, hlocal, hsplit, hdec, Prog.unwrap_some, Prog.ret_bind, Prog.call_bind,
          Prog.unwrap_none, Prog.fail_bind]
      | some pubBytes =>
        right
        rw [Node.dial_eq hlocal hsplit hdec] at h
        obtain ⟨s', now, r', -, hput, rfl⟩ := turn_now h
        obtain ⟨s'', c, -, -, henter⟩ := hput
        let sid := Node.generateSessionId remoteId localId now
        let composit := utf8 (String.singleton index) ++ pubBytes
        have hstored : ((Node.putTask sid composit s'').circuitTask sid).isSome := by
          simp [Node.putTask]
        refine ⟨sid, ⟨localId, now, hlocal, List.mem_cons_self, rfl⟩, ?_⟩
        have hstay := task_silent (r := r') silent_enterCircuit henter hstored
        exact hstay

/-- No dial is undone that gets no stream to the proxy or is declined by it: the key of the callee
stays behind. -/
theorem refused_dial_not_undone (h : Turn node KeysStay .free (node.dial remoteId) s r)
    (hrefused : NoStream r ∨ Declined r) :
    ¬ ∀ sid, IsSession node remoteId r sid → Undone r sid := by
  rintro hundone
  rcases dial_cases h with hnow | ⟨sid, hsid, htask⟩
  · rcases hrefused with ⟨proxyId, hstream⟩ | ⟨asked, q, receiver, ack, hasked, -⟩
    · obtain ⟨now, heq⟩ := hnow _ hstream
      cases heq
    · obtain ⟨now, heq⟩ := hnow ⟨.send q, ()⟩ (by rw [hasked]; simp)
      cases heq
  · have hnone := (hundone sid hsid).task
    rw [hnone] at htask
    cases htask

/-! ## A dial that is declined -/

/-- The proxy has answered, and declined. -/
def declining (s : Shared) : Shared := { s with oneshots := fun _ => .sent ⟨"", false, []⟩ }

omit [Codec] in
theorem keysStay_refl : KeysStay s s := fun _ h => h

omit [Codec] in
theorem keysStay_declining : KeysStay s (declining s) := fun _ h => h

/-- The rest of the dial has a run that is declined, returns the session and leaves its entries. -/
def Ends (node : Node) (sid : String) (p : Async String) (s : Shared) : Prop :=
  ∃ r, Turn node KeysStay .free p s r ∧ Declined r ∧ r.answer = some sid ∧
    (r.state.sessionMap sid).isSome ∧ (r.state.circuitMap sid).isSome ∧
      (r.state.circuitTask sid).isSome

omit [Codec] in
theorem Declined.after {x : Sigma Act.Res} {os : List Output} {ts : List Task} (h : Declined r) :
    Declined (r.after x os ts) := by
  obtain ⟨asked, q, receiver, ack, hasked, hresult⟩ := h
  exact ⟨x :: asked, q, receiver, ack, by rw [Record.asked_after, hasked, List.cons_append], hresult⟩

theorem Ends.act {a : Act} {k : a.Res → Async String} {s' : Shared} (hs : KeysStay s s') (c : Choice)
    {x : Reply Shared Task Output a.Res} (hx : Shared.reply a c s' = some x)
    (h : Ends node sid (k x.answer) x.state) : Ends node sid (.act a k) s := by
  obtain ⟨r, hrun, hdeclined, hrest⟩ := h
  exact ⟨_, ⟨s', c, x, r, hs, trivial, hx, hrun, rfl⟩, hdeclined.after, hrest⟩

theorem Ends.atomic {f : Shared → Shared} {k : Shared → Async String}
    (h : Ends node sid (k s) (f s)) : Ends node sid (.atomic f k) s := by
  obtain ⟨r, hrun, hrest⟩ := h
  exact ⟨r, ⟨s, .go, keysStay_refl, trivial, hrun⟩, hrest⟩

theorem Ends.awaitAck {receiver : ℕ} {k : Ack → Async String}
    (h : Ends node sid (k ⟨"", false, []⟩) (declining s)) :
    Ends node sid (Async.awaitAck receiver >>= k) s :=
  .act (a := .awaitAck receiver) keysStay_declining .go rfl h

theorem Ends.writeRelayArc {w : WrappedStream} {relay : Relay} {k : String → Async String}
    (h : ∀ key, Ends node sid (k key) s) : Ends node sid (writeRelayArc w relay >>= k) s := by
  have hpadding : Shared.reply (.randomBelow (confusionBound relay)) (.bytes []) s =
      some ⟨[], s, [], []⟩ := by
    have hpos : 0 < confusionBound relay := Nat.add_pos_right _ (by decide : 0 < confusionPadLen)
    simp only [Shared.reply, List.length_nil]
    rw [if_pos hpos]
  apply Ends.act (a := .randomBelow (confusionBound relay)) keysStay_refl (.bytes []) hpadding
  apply Ends.act (a := .write w _) keysStay_refl .go rfl
  exact h _

/-- The stream is opened, and the session is new. -/
theorem Ends.newSessionToPeer {w : WrappedStream} {mine other : Int32}
    {k : Option WrappedStream → Async String} (hfresh : w.streamId ∉ s.streams)
    (hnone : s.sessionMap sid = none)
    (h : ∀ s', (s'.sessionMap sid).isSome → s'.circuitTask = s.circuitTask →
      Ends node sid (k (some w)) s') :
    Ends node sid (Node.newSessionToPeer w.remotePeerId sid mine other >>= k) s := by
  have hopened : Shared.reply (.newRelayStream w.remotePeerId) (.stream (some w)) s =
      some ⟨some w, { s with streams := w.streamId :: s.streams }, [.opened w], []⟩ :=
    if_pos ⟨rfl, hfresh⟩
  simp only [Node.newSessionToPeer, Async.newRelayStream, Prog.call_bind, Prog.act_bind]
  apply Ends.act (a := .newRelayStream w.remotePeerId) keysStay_refl (.stream (some w)) hopened
  simp only [writeRelayWakeArc, writeSetSessionWithRoleArc, bind_assoc, Async.registerWaiter,
    Async.spawn, Async.getSession, Async.insertSession, Prog.update_bind, Prog.call_bind,
    Prog.read_bind, Prog.atomic_bind, Prog.act_bind]
  apply Ends.writeRelayArc
  rintro -
  apply Ends.writeRelayArc
  rintro key
  apply Ends.atomic
  apply Ends.awaitAck
  apply Ends.act (a := .spawn _) keysStay_refl .go rfl
  apply Ends.atomic
  dsimp only [id]
  rw [if_pos (by simp [declining, Shared.register, hnone])]
  simp only [Prog.write_bind, Prog.pure_eq, Prog.atomic_bind, Prog.ret_bind]
  apply Ends.atomic
  apply h
  · simp
  · rfl

/-- The last request is declined. -/
theorem Ends.newCircuit {fromId toId remoteId localPeerId : String} {proxyId : PeerId}
    (hfrom : fromWhitenoiseToHash localId = some fromId)
    (hto : fromWhitenoiseToHash remoteId = some toId) (hsession : (s.sessionMap sid).isSome)
    (hcircuit : (s.circuitMap sid).isSome) (htask : (s.circuitTask sid).isSome) :
    Ends node sid (do
      Node.newCircuit remoteId localId localPeerId sid proxyId
      return sid) s := by
  simp only [Node.newCircuit, hfrom, hto, Prog.unwrap_some, Prog.ret_bind,
    Node.sendProxyRequestAndWait, Node.externalSendNodeRequestAndWait, Async.registerWaiter,
    Async.send, Async.awaitAck, Prog.update_bind, Prog.call_bind, Prog.atomic_bind, Prog.act_bind]
  apply Ends.atomic
  generalize hstate : Shared.register _ s = s'
  have hmaps : s'.sessionMap = s.sessionMap ∧ s'.circuitMap = s.circuitMap ∧
      s'.circuitTask = s.circuitTask := by
    rw [← hstate]
    exact ⟨rfl, rfl, rfl⟩
  let ended : TurnRecord String := ⟨some sid, declining s', [], [], []⟩
  constructor
  constructor
  · exact ⟨_, .go, _, _, keysStay_refl, trivial, rfl,
      ⟨_, .go, _, ended, keysStay_declining, trivial, rfl, rfl, rfl⟩, rfl⟩
  · refine ⟨⟨[], _, _, _, rfl, rfl⟩, rfl, ?_, ?_, ?_⟩
    · exact (congrFun hmaps.1 sid).symm ▸ hsession
    · exact (congrFun hmaps.2.1 sid).symm ▸ hcircuit
    · exact (congrFun hmaps.2.2 sid).symm ▸ htask

/-- Every dial of an identity that can be read can be declined. It returns the session all the
same, and the three maps have entries for it. -/
theorem exists_declined {index : Char} {pub fromId toId : String} {pubBytes : Bytes}
    {proxyId : PeerId} (now : ℕ) (hlocal : node.whitenoiseId = some localId)
    (hsplit : splitAtOne remoteId = some (index, pub)) (hdec : Crypto.bs58Decode pub = some pubBytes)
    (hproxy : node.proxyId = some proxyId) (hfrom : fromWhitenoiseToHash localId = some fromId)
    (hto : fromWhitenoiseToHash remoteId = some toId) :
    Ends node (Node.generateSessionId remoteId localId now) (node.dial remoteId) {} := by
  rw [Node.dial_eq hlocal hsplit hdec]
  apply Ends.act (a := .now) keysStay_refl (.micros now) rfl
  apply Ends.atomic
  simp only [Node.enterCircuit, hproxy, Prog.unwrap_some, Prog.ret_bind]
  apply Ends.newSessionToPeer (w := ⟨proxyId, 1⟩)
  · exact List.not_mem_nil
  · rfl
  · rintro s hsession htask
    simp only [Prog.unwrap_some, Prog.ret_bind, Async.newChannel, Async.insertCircuit,
      Prog.update_bind, Prog.write_bind]
    apply Ends.atomic
    apply Ends.atomic
    refine Ends.newCircuit hfrom hto hsession ?_ ?_
    · simp
    · rw [htask]
      simp [Node.putTask]

end Generic

namespace Sample

def node : Node := ⟨(⟨.ed25519, List.replicate 32 7⟩ : Ideal.Keypair), some ⟨"proxy"⟩, none⟩

/-- The identity of the node. -/
def localId : String := "0US517G5965aydkZ46HS38QLi7UQiSojurfbQfKCELFx"

/-- The identity of the callee. -/
def remoteId : String := "0YMN9Qj5jPNp7j14VPcML1B6xGgcPWVZUGLFU3Mnyfaf"

theorem declined :
    Ends node (Node.generateSessionId remoteId localId 0) (node.dial remoteId) {} := by
  have hfrom : (fromWhitenoiseToHash localId).isSome := by decide
  have hto : (fromWhitenoiseToHash remoteId).isSome := by decide
  obtain ⟨fromId, hfrom⟩ := Option.isSome_iff_exists.mp hfrom
  obtain ⟨toId, hto⟩ := Option.isSome_iff_exists.mp hto
  have hdec : (Ideal.crypto.bs58Decode "YMN9Qj5jPNp7j14VPcML1B6xGgcPWVZUGLFU3Mnyfaf").isSome := by decide
  obtain ⟨pubBytes, hdec⟩ := Option.isSome_iff_exists.mp hdec
  have hsplit : splitAtOne remoteId = some ('0', "YMN9Qj5jPNp7j14VPcML1B6xGgcPWVZUGLFU3Mnyfaf") := by
    decide
  exact exists_declined 0 (by decide) hsplit hdec rfl hfrom hto

end Sample

theorem refused_dial_not_undone_declined :
    ∃ r, Turn Sample.node KeysStay .free (Sample.node.dial Sample.remoteId) {} r ∧ Declined r ∧
      ¬ ∀ sid, IsSession Sample.node Sample.remoteId r sid → Undone r sid := by
  obtain ⟨r, hrun, hdeclined, -⟩ := Sample.declined
  exact ⟨r, hrun, hdeclined, refused_dial_not_undone hrun (Or.inr hdeclined)⟩

/-- The proxy declines, and the dial returns a session with entries in all three maps. -/
theorem not_refused_dial_undone :
    ∃ r, Turn Sample.node KeysStay .free (Sample.node.dial Sample.remoteId) {} r ∧ Declined r ∧
      ∃ sid, r.answer = some sid ∧ (r.state.sessionMap sid).isSome ∧
        (r.state.circuitMap sid).isSome ∧ (r.state.circuitTask sid).isSome := by
  obtain ⟨r, hrun, hdeclined, hrest⟩ := Sample.declined
  exact ⟨r, hrun, hdeclined, _, hrest⟩

end WhiteNoise.Dial
