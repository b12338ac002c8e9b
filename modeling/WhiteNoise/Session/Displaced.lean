import WhiteNoise.Session.Turns
import WhiteNoise.Session.Shape

/-! # Streams that are displaced

An entry node that becomes the relay tells the stream that it displaces, and
closes it. Every other operation that attaches a later stream displaces the one
before it without a word.
-/

namespace WhiteNoise.Displaced

open Wire Process Shape

section Generic

variable [Codec] [Crypto]

/-- The operation attaches a stream. -/
def Attaches : Operation → Prop
  | .close _ => False
  | _ => True

/-- The entry node is asked to be the relay. -/
def Relays (session : Session) : Operation → Prop
  | .setSession msg _ _ => session.sessionRole = SessionRole.entryRole.toI32 ∧
    msg.role = SessionRole.relayRole.toI32
  | _ => False

/-- A frame that disconnects the session is written to the stream, and then it is closed. -/
def Disconnected (w : WrappedStream) (sid : String) (os : List Output) : Prop :=
  ∃ relay : Relay, relay.type = Relaytype.disconnect.toI32 ∧
    (∃ errCode, Codec.decode relay.data = some (⟨sid, errCode⟩ : Disconnect)) ∧
    [.write w (Codec.encode relay), .close w].Sublist os

/-- Every stream of the session is still part of it or has been disconnected, and the later stream
of a session that was ready is replaced only where the entry node becomes the relay. -/
structure Announced (op : Operation) (session : Session) (r : TurnRecord Unit) : Prop where
  kept : ∀ w, Part w (some session) →
    Part w (r.state.sessionMap op.sessionId) ∨ Disconnected w op.sessionId r.outputs
  replaced : session.ready → ∀ session', r.state.sessionMap op.sessionId = some session' →
    session'.pairStream.laterStream ≠ session.pairStream.laterStream → Relays session op

/-- A run of the operation among other tasks that leave the streams of the session in place. -/
abbrev Operates (node : Node) (op : Operation) (s : Shared) (r : TurnRecord Unit) : Prop :=
  Turn node (Undisturbed (fun _ => True) op.sessionId) .free op.body s r

/-- There is no other later stream to displace. -/
def Free (w : WrappedStream) (session : Session) : Prop :=
  ∀ later, session.pairStream.laterStream = some later → later = w

/-- The operation displaces no stream, or the entry node becomes the relay. -/
def Harmless (session : Session) : Operation → Prop
  | .setSession msg w relayId =>
    if Session.isRefused msg session then ∀ w, ¬ Part w (some session)
    else Relays session (.setSession msg w relayId) ∨ Free w session
  | .completion w _ _ => Free w session
  | .close _ => True

variable {node : Node} {s : Shared} {op : Operation} {session current final : Session}
  {w : WrappedStream} {sid : String} {role : Int32} {r : TurnRecord Unit}

/-! ## No stream is displaced -/

/-- A session that is in the state stays there through a calm program. -/
theorem stays_calm {p : Async Unit} {held : WrappedStream → Prop} (hp : Calm p)
    (h : Turn node (Undisturbed held sid) .free p s r) (hs : s.sessionMap sid = some session) :
    ∃ final, r.state.sessionMap sid = some final ∧ session.Stays held final := by
  refine entry_calm (P := fun entry => ∃ final, entry = some final ∧ session.Stays held final) ?_
    hp h ⟨session, hs, .refl⟩
  rintro s s' hrely ⟨before, hbefore, hstays⟩
  obtain ⟨after, hafter, hstays'⟩ := hrely.some hbefore
  exact ⟨after, hafter, hstays.trans hstays'⟩

theorem announced_of_free (hfree : Free w session) (hcurrent : session.Stays (fun _ => True) current)
    (hfinal : (Session.attach sid role w (some current)).Stays (fun _ => True) final)
    (hr : r.state.sessionMap op.sessionId = some final) : Announced op session r := by
  have hlater : final.pairStream.laterStream = some w := by
    obtain ⟨w', hw', heq⟩ := hfinal.later w rfl
    rw [hw', heq trivial]
  constructor
  · rintro x ⟨_, ⟨⟩, hearly | hx⟩
    · obtain ⟨x', hx', heq⟩ := hcurrent.early x hearly
      obtain ⟨x'', hx'', heq'⟩ := hfinal.early x' hx'
      obtain rfl := heq trivial
      obtain rfl := heq' trivial
      exact Or.inl ⟨final, hr, Or.inl hx''⟩
    · obtain rfl := hfree x hx
      exact Or.inl ⟨final, hr, Or.inr hlater⟩
  · rintro hready session' hsession' hne
    obtain rfl := Option.some.inj (hr.symm.trans hsession')
    simp only [Session.ready, Bool.and_eq_true, Option.isSome_iff_exists] at hready
    obtain ⟨-, later, hl⟩ := hready
    obtain rfl := hfree later hl
    exact absurd (hlater.trans hl.symm) hne

/-- The later stream is told and closed before the offer is acknowledged. -/
theorem disconnected_later {rely : Shared → Shared → Prop} {later : WrappedStream}
    {relayId : String} (h : Turn node rely .free (disconnectLater later w sid relayId) s r) :
    Disconnected later sid r.outputs := by
  simp only [disconnectLater, writeDisconnectArc, bind_assoc] at h
  obtain ⟨s₁, s₂, b, r₁, -, -, h₁, rfl⟩ := turn_writeRelayArc h
  obtain ⟨s₃, r₂, -, -, rfl⟩ := turn_close h₁
  have hdec : Codec.decode (newRelayDisconnect sid).data = some (⟨sid, 0⟩ : Disconnect) :=
    Codec.decode_encode _
  refine ⟨_, ?_, ⟨0, ?_⟩, ((List.nil_sublist r₂.outputs).cons_cons _).cons_cons _⟩
  · rfl
  · exact hdec

theorem announced_setSession {msg : SetSessionIdMsg} {relayId : String}
    (hsome : s.sessionMap msg.sessionId = some session)
    (hharmless : Harmless session (.setSession msg w relayId))
    (h : Operates node (.setSession msg w relayId) s r) :
    Announced (.setSession msg w relayId) session r := by
  change Turn node (Undisturbed (fun _ => True) msg.sessionId) .free
    (handleSetSession msg w relayId) s r at h
  simp only [Harmless] at hharmless
  split at hharmless
  · next hrefused =>
    constructor
    · rintro x hx
      exact absurd hx (hharmless x)
    · rintro hready
      simp [Session.isRefused, hready] at hrefused
  · next hrefused =>
    obtain ⟨s₁, hs₁, hjoins⟩ := turn_handleSetSession h
    obtain ⟨session₁, hsome₁, hstays₁⟩ := hs₁.some hsome
    cases hjoins with
    | opened hnone s₂ hs₂ hrun =>
      rw [hnone] at hsome₁
      cases hsome₁
    | refused session' hsome' hrefused' hrun =>
      obtain ⟨before, hbefore, hrefused'⟩ := refused_of_undisturbed hs₁ hsome' hrefused'
      obtain rfl := Option.some.inj (hsome.symm.trans hbefore)
      exact absurd hrefused' hrefused
    | replaced session' later hsome' hrole hready hlater s₂ hs₂ hrun =>
      obtain rfl := Option.some.inj (hsome₁.symm.trans hsome')
      obtain ⟨final, hfinal, hstays⟩ := stays_calm calm_disconnectLater hrun
        (Function.update_self ..)
      constructor
      · rintro x ⟨_, ⟨⟩, hearly | hx⟩
        · obtain ⟨x', hx', heq⟩ := hstays₁.early x hearly
          obtain rfl := heq trivial
          obtain ⟨x'', hx'', heq'⟩ := hstays.early x' hx'
          obtain rfl := heq' trivial
          exact Or.inl ⟨final, hfinal, Or.inl hx''⟩
        · obtain ⟨x', hx', heq⟩ := hstays₁.later x hx
          obtain rfl := heq trivial
          obtain rfl := Option.some.inj (hlater.symm.trans hx')
          exact Or.inr (disconnected_later hrun)
      · rintro - session' - -
        exact ⟨hstays₁.role ▸ hrole.1, hrole.2⟩
    | joined session' current hsome' hrole s₂ hs₂ hcurrent hrun =>
      obtain rfl := Option.some.inj (hsome₁.symm.trans hsome')
      obtain ⟨current', hcurrent', hstays₂⟩ := hs₂.some hsome₁
      obtain rfl := Option.some.inj (hcurrent.symm.trans hcurrent')
      obtain ⟨final, hfinal, hstays⟩ := stays_calm calm_joinAck hrun (Function.update_self ..)
      rcases hharmless with hrelays | hfree
      · exact absurd ⟨hstays₁.role.trans hrelays.1, hrelays.2⟩ hrole
      · exact announced_of_free hfree (hstays₁.trans hstays₂) hstays hfinal
    | vanished session' hsome' s₂ hs₂ hnone =>
      obtain ⟨current, hcurrent, -⟩ := hs₂.some hsome'
      rw [hnone] at hcurrent
      cases hcurrent

theorem announced_completion (hsome : s.sessionMap sid = some session) (hfree : Free w session)
    (h : Operates node (.completion w sid role) s r) :
    Announced (.completion w sid role) session r := by
  change Turn node (Undisturbed (fun _ => True) sid) .free
    (.act (.spawn (.relayEventHandler w (some sid))) fun _ => Node.putSession w sid role) s r at h
  obtain ⟨s₁, r₁, hs₁, hput, rfl⟩ := turn_spawn h
  obtain ⟨s₂, hs₂, hputs⟩ := turn_putSession hput
  obtain ⟨session₁, hsome₁, hstays₁⟩ := hs₁.some hsome
  obtain ⟨session₂, hsome₂, hstays₂⟩ := hs₂.some hsome₁
  cases hputs with
  | opened hnone s₃ hs₃ hr =>
    rw [hsome₂] at hnone
    cases hnone
  | joined session' current hsome' s₃ s₄ hs₃ hs₄ hcurrent hr =>
    obtain ⟨current', hcurrent', hstays₃⟩ := hs₃.some hsome₂
    obtain rfl := Option.some.inj (hcurrent.symm.trans hcurrent')
    have hfinal : (r₁.after ⟨.spawn (.relayEventHandler w (some sid)), ()⟩ []
        [.relayEventHandler w (some sid)]).state.sessionMap sid =
          some (Session.attach sid role w (some current)) := by
      rw [Record.state_after, hr]
      exact Function.update_self ..
    exact announced_of_free hfree ((hstays₁.trans hstays₂).trans hstays₃) .refl hfinal
  | vanished session' hsome' s₃ hs₃ hnone =>
    obtain ⟨current, hcurrent, -⟩ := hs₃.some hsome'
    rw [hnone] at hcurrent
    cases hcurrent

/-! ## A stream is displaced -/

omit [Crypto] in
theorem disconnected_writes {os : List Output} (h : Disconnected w sid os) :
    ∃ b, .write w b ∈ os := by
  obtain ⟨relay, -, -, hsub⟩ := h
  exact ⟨_, hsub.subset List.mem_cons_self⟩

/-- A session that is closed has no part any more, and nobody is told. -/
theorem not_announced_refused {msg : SetSessionIdMsg} {relayId : String} {x : WrappedStream}
    (hsome : s.sessionMap msg.sessionId = some session) (hrefused : Session.isRefused msg session)
    (hx : Part x (some session)) :
    ∃ r, Operates node (.setSession msg w relayId) s r ∧
      ¬ Announced (.setSession msg w relayId) session r := by
  have hrefl (s : Shared) : Undisturbed (fun _ => True) msg.sessionId s s := undisturbed_of_eq rfl
  obtain ⟨r, hrun, -⟩ := exists_prompt (handleCloseSession_prompt msg.sessionId) node hrefl s
  refine ⟨r, turn_refused (hrefl s) hsome hrefused hrun, ?_⟩
  · rintro hannounced
    obtain ⟨-, hclosed⟩ := turn_handleCloseSession (fun _ _ hs => hs.none) hrun
    have hwrites : ∀ o ∈ r.outputs, ∃ w, o = .close w := by
      refine Semantics.Amid.outputs_within ?_ handleCloseSession_closes hrun
      rintro a ⟨v, rfl⟩ c s y hy o ho
      cases hy
      exact ⟨v, List.mem_singleton.mp ho⟩
    rcases hannounced.kept x hx with ⟨session', hsession', -⟩ | hdisconnected
    · change r.state.sessionMap msg.sessionId = some session' at hsession'
      rw [hclosed] at hsession'
      cases hsession'
    · obtain ⟨b, hmem⟩ := disconnected_writes hdisconnected
      obtain ⟨v, hv⟩ := hwrites _ hmem
      cases hv

/-- A later stream that another one replaces is displaced, if nothing is written. -/
theorem not_announced {later : WrappedStream}
    (hfinal : r.state.sessionMap op.sessionId = some (Session.attach sid role w (some session)))
    (hwrites : ∀ w b, .write w b ∉ r.outputs) (hlater : session.pairStream.laterStream = some later)
    (hne : later ≠ w) (hrelays : ¬ Relays session op) : ¬ Announced op session r := by
  rintro hannounced
  cases hearly : session.pairStream.earlyStream with
  | some early =>
    have hready : session.ready := by simp [Session.ready, hearly, hlater]
    refine hrelays (hannounced.replaced hready _ hfinal ?_)
    rintro heq
    exact hne (Option.some.inj (hlater.symm.trans heq.symm))
  | none =>
    rcases hannounced.kept later ⟨session, rfl, Or.inr hlater⟩ with
      ⟨session', hsession', hpart⟩ | hdisconnected
    · obtain rfl := Option.some.inj (hfinal.symm.trans hsession')
      rcases hpart with he | hl
      · cases hearly.symm.trans he
      · exact hne (Option.some.inj hl).symm
    · obtain ⟨b, hmem⟩ := disconnected_writes hdisconnected
      exact hwrites later b hmem

/-- Others that do nothing do not disturb the session. -/
theorem operates_alone {p : Async Unit} {held : WrappedStream → Prop}
    (h : Turn node Eq .free p s r) : Turn node (Undisturbed held sid) .free p s r := by
  refine h.mono ?_ fun _ _ _ h => h
  rintro s _ rfl
  exact undisturbed_of_eq rfl

theorem not_announced_setSession {msg : SetSessionIdMsg} {relayId : String} {later : WrappedStream}
    (hsome : s.sessionMap msg.sessionId = some session) (hrefused : ¬ Session.isRefused msg session)
    (hrelays : ¬ Relays session (.setSession msg w relayId))
    (hlater : session.pairStream.laterStream = some later) (hne : later ≠ w) :
    ∃ r, Operates node (.setSession msg w relayId) s r ∧
      ¬ Announced (.setSession msg w relayId) session r := by
  obtain ⟨r, hrun, -⟩ : ∃ r, Turn node Eq .free (handleSetSession msg w relayId) s r ∧ Heard r :=
    exists_prompt handleSetSession_prompt node (fun _ => rfl) s
  refine ⟨r, operates_alone hrun, ?_⟩
  obtain ⟨_, rfl, hjoins⟩ := turn_handleSetSession hrun
  cases hjoins with
  | opened hnone s₂ hs₂ hend =>
    rw [hnone] at hsome
    cases hsome
  | refused session' hsome' hrefused' hend =>
    obtain rfl := Option.some.inj (hsome.symm.trans hsome')
    exact absurd hrefused' hrefused
  | replaced session' later' hsome' hrole hready hlater' s₂ hs₂ hend =>
    obtain rfl := Option.some.inj (hsome.symm.trans hsome')
    exact absurd hrole hrelays
  | joined session' current hsome' hrole s₂ hs₂ hcurrent hend =>
    subst hs₂
    obtain rfl := Option.some.inj (hsome.symm.trans hcurrent)
    have hfinal : r.state.sessionMap msg.sessionId =
        some (Session.attach msg.sessionId msg.role w (some session)) := by
      refine entry_calm (P := fun entry => entry = some _) ?_ calm_joinAck hend
        (Function.update_self ..)
      rintro s _ rfl hs
      exact hs
    refine not_announced hfinal ?_ hlater hne hrelays
    · rintro x b hmem
      rw [turn_sendAck hend] at hmem
      cases List.mem_singleton.mp hmem
  | vanished session' hsome' s₂ hs₂ hnone =>
    subst hs₂
    rw [hnone] at hsome
    cases hsome

theorem not_announced_completion {later : WrappedStream} (hsome : s.sessionMap sid = some session)
    (hlater : session.pairStream.laterStream = some later) (hne : later ≠ w) :
    ∃ r, Operates node (.completion w sid role) s r ∧
      ¬ Announced (.completion w sid role) session r := by
  have hinstant : (Operation.completion w sid role).body.Within (fun _ => True) Instant
      fun _ => True :=
    ⟨Or.inr ⟨_, rfl⟩, fun _ =>
      putSession_prompt.mono (fun _ h => h) (fun _ h => Or.inl h) fun _ h => h⟩
  obtain ⟨r, hrun, -⟩ : ∃ r, Turn node Eq .free (Operation.completion w sid role).body s r ∧
      Heard r := exists_instant hinstant node (fun _ => rfl) s
  refine ⟨r, operates_alone hrun, ?_⟩
  change Turn node Eq .free
    (.act (.spawn (.relayEventHandler w (some sid))) fun _ => Node.putSession w sid role) s r at hrun
  obtain ⟨_, r₁, rfl, hput, rfl⟩ := turn_spawn hrun
  obtain ⟨_, rfl, hputs⟩ := turn_putSession hput
  cases hputs with
  | opened hnone s₂ hs₂ hr =>
    rw [hnone] at hsome
    cases hsome
  | joined session' current hsome' s₂ s₃ hs₂ hs₃ hcurrent hr =>
    subst hs₂ hs₃ hr
    obtain rfl := Option.some.inj (hsome.symm.trans hcurrent)
    have hfinal : (s.setEntry sid (some (Session.attach sid role w (some session)))).sessionMap sid =
        some (Session.attach sid role w (some session)) := Function.update_self ..
    have hwrites (x : WrappedStream) (b : Bytes) : .write x b ∉ ([] : List Output) :=
      List.not_mem_nil
    exact not_announced hfinal hwrites hlater hne id
  | vanished session' hsome' s₂ hs₂ hnone =>
    subst hs₂
    rw [hnone] at hsome
    cases hsome

theorem harmless_of_announced (hop : Attaches op) (hsome : s.sessionMap op.sessionId = some session)
    (h : ∀ r, Operates node op s r → Announced op session r) : Harmless session op := by
  cases op with
  | setSession msg w relayId =>
    simp only [Harmless]
    split
    · next hrefused =>
      rintro x hx
      obtain ⟨r, hrun, hnot⟩ : ∃ r, Operates node (.setSession msg w relayId) s r ∧
          ¬ Announced (.setSession msg w relayId) session r :=
        not_announced_refused hsome hrefused hx
      exact hnot (h r hrun)
    · next hrefused =>
      by_cases hrelays : Relays session (.setSession msg w relayId)
      · exact Or.inl hrelays
      · right
        rintro later hlater
        by_contra hne
        obtain ⟨r, hrun, hnot⟩ : ∃ r, Operates node (.setSession msg w relayId) s r ∧
            ¬ Announced (.setSession msg w relayId) session r :=
          not_announced_setSession hsome hrefused hrelays hlater hne
        exact hnot (h r hrun)
  | completion w sid role =>
    rintro later hlater
    by_contra hne
    obtain ⟨r, hrun, hnot⟩ : ∃ r, Operates node (.completion w sid role) s r ∧
        ¬ Announced (.completion w sid role) session r :=
      not_announced_completion hsome hlater hne
    exact hnot (h r hrun)
  | close sid => exact hop.elim

/-- An operation that attaches a stream announces what it displaces exactly when it displaces
nothing or the entry node becomes the relay. -/
theorem streams_announced (node : Node) (s : Shared) (op : Operation) (h : Attaches op) :
    (∀ session, s.sessionMap op.sessionId = some session →
      ∀ r, Operates node op s r → Announced op session r) ↔
    ∀ session, s.sessionMap op.sessionId = some session → Harmless session op := by
  constructor
  · rintro hannounced session hsome
    exact harmless_of_announced h hsome (hannounced session hsome)
  · rintro hharmless session hsome r hrun
    cases op with
    | setSession msg w relayId => exact announced_setSession hsome (hharmless session hsome) hrun
    | completion w sid role => exact announced_completion hsome (hharmless session hsome) hrun
    | close sid => exact h.elim

end Generic

/-! ## A third stream -/

namespace Sample

/-- The entry node is offered the session on a third stream, as the relay. -/
def offer : Operation :=
  .setSession ⟨"session", SessionRole.relayRole.toI32⟩ (Shape.Sample.stream 2) "frame"

/-- The session of an entry node with two streams. -/
def state : Shared where
  sessionMap sid := if sid = "session" then
    some ⟨"session", ⟨some (Shape.Sample.stream 0), some (Shape.Sample.stream 1)⟩,
      SessionRole.entryRole.toI32⟩
    else none

end Sample

theorem streams_announced_entry :
    (∃ session, Sample.state.sessionMap "session" = some session ∧ Harmless session Sample.offer) ∧
    ∀ session, Sample.state.sessionMap "session" = some session →
      ∀ r, Operates Shape.Sample.relayNode Sample.offer Sample.state r →
        Announced Sample.offer session r := by
  have hharmless (session : Session) (hsome : Sample.state.sessionMap "session" = some session) :
      Harmless session Sample.offer := by
    obtain rfl := Option.some.inj hsome
    rw [Sample.offer, Harmless, if_neg (by decide)]
    exact Or.inl ⟨rfl, rfl⟩
  constructor
  · exact ⟨_, rfl, hharmless _ rfl⟩
  · exact (streams_announced Shape.Sample.relayNode Sample.state Sample.offer trivial).mpr hharmless

/-- Two streams have joined a relay node, and a third one displaces the second. -/
theorem not_streams_announced : ∃ s os session,
    run (perform Shape.Sample.relayNode) {} [Shape.Sample.setSession 0, Shape.Sample.setSession 1] =
      some (s, os) ∧
    s.sessionMap "session" = some session ∧ session.ready ∧
    ∃ r, Operates Shape.Sample.relayNode Sample.offer s r ∧ ¬ Announced Sample.offer session r := by
  refine ⟨_, _, _, rfl, rfl, rfl, ?_⟩
  apply not_announced_setSession rfl (by decide) _ rfl (by decide)
  rintro ⟨hentry, -⟩
  exact absurd hentry (by decide)

end WhiteNoise.Displaced
