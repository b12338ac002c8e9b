import WhiteNoise.Network.Ideal
import WhiteNoise.Session.Operations

/-! # The two streams of a session

A session is forwarded from either of its streams to the other, so the two have
to differ. Both functions that attach a stream make the first one early and the
next one later, whatever stream it is.
-/

namespace WhiteNoise.Shape

open Wire Process

section Generic

variable [Codec] [Crypto]

/-- A call that writes the session map. -/
inductive Operation where
  | setSession (msg : SetSessionIdMsg) (stream : WrappedStream) (relayId : String)
  | completion (stream : WrappedStream) (sessionId : String) (myRole : Int32)
  | close (sessionId : String)

namespace Operation

def body : Operation → Async Unit
  | setSession msg stream relayId => handleSetSession msg stream relayId
  | completion stream sessionId myRole => do
    Async.spawn (.relayEventHandler stream (some sessionId))
    Node.putSession stream sessionId myRole
  | close sessionId => Node.handleCloseSession sessionId

def sessionId : Operation → String
  | setSession msg _ _ => msg.sessionId
  | completion _ sessionId _ => sessionId
  | close sessionId => sessionId

/-- What the call makes of the entry of its session. -/
def effect : Operation → Option Session → Option Session
  | setSession msg stream _, entry => Session.join msg stream entry
  | completion stream sessionId myRole, entry =>
    some (Session.attach sessionId myRole stream entry)
  | close _, _ => none

end Operation

/-- One call after another, each with the choices for its requests. -/
def perform (node : Node) (s : Shared) (e : Operation × List Choice) :
    Option (Shared × List Output) :=
  ((nodeSemantics node).exec e.1.body e.2 s).map fun r => (r.state, r.outputs)

/-- The entry has its key as identifier and two different streams, the early one at least. -/
structure Shaped (sid : String) (session : Session) : Prop where
  id : session.id = sid
  early : ∃ early, session.pairStream.earlyStream = some early ∧
    ∀ later, session.pairStream.laterStream = some later → later.streamId ≠ early.streamId

def WellShaped (s : Shared) : Prop :=
  ∀ sid session, s.sessionMap sid = some session → Shaped sid session

/-- Nothing is forwarded to the stream it came from. -/
def Unreflected (session : Session) : Prop :=
  ∀ id relay, (forwardRelay session id relay).Within (fun _ => True)
    (fun a => ∀ w b, a = .write w b → w.streamId ≠ id) fun _ => True

/-- The stream is the early one of the session. -/
def isEarly (stream : WrappedStream) (session : Session) : Bool :=
  session.pairStream.earlyStream.any (·.streamId = stream.streamId)

/-- A call that attaches a stream to a session brings another than its early one. -/
def Operation.separate (s : Shared) : Operation → Bool
  | setSession msg stream _ =>
    (s.sessionMap msg.sessionId).all fun session =>
      Session.isRefused msg session || !isEarly stream session
  | completion stream sessionId _ =>
    (s.sessionMap sessionId).all fun session => !isEarly stream session
  | close _ => true

variable {node : Node} {s s' : Shared} {op : Operation} {os : List Output} {cs : List Choice}
  {sid : String} {session : Session} {w : WrappedStream}

/-! ## One call -/

theorem perform_sessionMap (h : perform node s (op, cs) = some (s', os)) :
    s'.sessionMap =
      Function.update s.sessionMap op.sessionId (op.effect (s.sessionMap op.sessionId)) := by
  obtain ⟨r, hr, heq⟩ := Option.map_eq_some_iff.mp h
  obtain ⟨rfl, rfl⟩ := Prod.mk.inj heq
  cases op with
  | setSession msg stream relayId =>
    obtain ⟨-, -, hst⟩ := exec_handleSetSession hr
    rw [hst]
    simp only [Operation.effect, Operation.sessionId]
    cases Session.join msg stream (s.sessionMap msg.sessionId) <;> rfl
  | completion stream sid role =>
    obtain ⟨c, cs', x, r', rfl, hx, h', rfl⟩ := Semantics.exec_act_iff.mp hr
    cases hx
    obtain rfl := exec_putSession h'
    rfl
  | close sid =>
    obtain ⟨-, hst, -⟩ := exec_handleCloseSession hr
    rw [hst]
    rfl

omit [Codec] [Crypto] in
theorem attach_shaped_iff (role : Int32) (entry : Option Session)
    (h : ∀ session, entry = some session → Shaped sid session) :
    Shaped sid (Session.attach sid role w entry) ↔ entry.all fun session => !isEarly w session := by
  cases entry with
  | none => exact iff_of_true ⟨rfl, w, rfl, fun _ h => (nomatch h)⟩ rfl
  | some session =>
    obtain ⟨hid, early, he, -⟩ := h session rfl
    simp only [Option.all_some, isEarly, he, Option.any_some, Bool.not_eq_true',
      decide_eq_false_iff_not]
    constructor
    · rintro ⟨-, early', he', hne⟩
      obtain rfl := Option.some.inj (he.symm.trans he')
      exact fun heq => hne w rfl heq.symm
    · intro hne
      refine ⟨hid, early, he, ?_⟩
      rintro later ⟨⟩ heq
      exact hne heq.symm

omit [Codec] in
/-- A call leaves a well-shaped entry well shaped exactly when it brings another stream. -/
theorem effect_shaped_iff (h : ∀ session, s.sessionMap op.sessionId = some session →
      Shaped op.sessionId session) :
    (∀ session, op.effect (s.sessionMap op.sessionId) = some session →
      Shaped op.sessionId session) ↔ op.separate s := by
  cases op with
  | setSession msg w _ =>
    simp only [Operation.effect, Operation.sessionId, Operation.separate] at h ⊢
    cases hs : s.sessionMap msg.sessionId with
    | none =>
      refine iff_of_true ?_ rfl
      rintro session ⟨⟩
      exact (attach_shaped_iff _ none fun _ h => (nomatch h)).mpr rfl
    | some session =>
      rw [hs] at h
      simp only [Session.join, Option.any_some, Option.all_some, Bool.or_eq_true]
      by_cases hr : Session.isRefused msg session
      · simp [hr]
      · have ha := attach_shaped_iff (w := w) msg.role _ h
        simp only [Option.all_some] at ha
        simp [hr, ha]
  | completion w sid role =>
    simp only [Operation.effect, Operation.sessionId, Operation.separate, Option.some.injEq,
      forall_eq'] at h ⊢
    exact attach_shaped_iff _ _ h
  | close sid => simp [Operation.effect, Operation.separate]

theorem perform_wellShaped (h : WellShaped s)
    (hsep : op.separate s) (hp : perform node s (op, cs) = some (s', os)) : WellShaped s' := by
  intro sid session hs
  rw [perform_sessionMap hp] at hs
  by_cases hsid : sid = op.sessionId
  · subst hsid
    rw [Function.update_self] at hs
    exact (effect_shaped_iff fun session => h _ session).mpr hsep session hs
  · rw [Function.update_of_ne hsid] at hs
    exact h sid session hs

theorem Shaped.unreflected (h : Shaped sid session) : Unreflected session := by
  intro id relay
  have hwrite (w : WrappedStream) (hw : w.streamId ≠ id) :
      Prog.Within (fun _ => True) (fun a => ∀ w b, a = .write w b → w.streamId ≠ id)
        (fun _ => True) (do let _ ← writeRelayArc w relay) := by
    refine ⟨fun _ _ h => (nomatch h), fun _ => ⟨?_, fun _ => trivial⟩⟩
    rintro _ _ ⟨⟩
    exact hw
  obtain ⟨-, early, he, hne⟩ := h
  unfold forwardRelay
  cases hl : session.pairStream.laterStream with
  | none =>
    simp only [he, Prog.unwrap_some, Prog.unwrap_none, Prog.ret_bind, Prog.fail_bind]
    split <;> trivial
  | some later =>
    simp only [he, Prog.unwrap_some, Prog.ret_bind]
    split
    · next heq => exact hwrite later (heq ▸ hne later hl)
    · next hearly =>
      split
      · exact hwrite early hearly
      · trivial

end Generic

/-- If every call brings another stream than the early one of its session, the session map stays
well shaped and no frame is sent back where it came from. -/
theorem session_shape [Codec] [Crypto] (node : Node) {s s' : Shared}
    {es : List (Operation × List Choice)} {os : List Output} (h₀ : WellShaped s)
    (hC : Meets (fun s e => e.1.separate s = true) (perform node) s es)
    (h : run (perform node) s es = some (s', os)) :
    WellShaped s' ∧ ∀ sid session, s'.sessionMap sid = some session → Unreflected session := by
  have hw : WellShaped s' :=
    run_induction_meets (P := fun _ t _ => WellShaped t) h₀
      (fun _ _ _ _ _ _ ht hsep hp => perform_wellShaped ht hsep hp) hC h
  exact ⟨hw, fun sid session hs => (hw sid session hs).unreflected⟩

/-! ## A stream that joins twice -/

namespace Sample

def relayNode : Node := ⟨(⟨.ed25519, List.replicate 32 7⟩ : Ideal.Keypair), none, none⟩

def stream (n : ℕ) : WrappedStream := ⟨⟨"peer"⟩, n⟩

def setSession (n : ℕ) : Operation × List Choice :=
  (.setSession ⟨"session", SessionRole.relayRole.toI32⟩ (stream n) "frame", [.go])

/-- One stream joins, the node opens another, the session is closed and joined again. -/
def calls : List (Operation × List Choice) :=
  [setSession 0, (.completion (stream 1) "session" SessionRole.relayRole.toI32, [.go]),
    (.close "session", [.go, .go]), setSession 2]

end Sample

theorem session_shape_calls : ∃ s os,
    run (perform Sample.relayNode) {} Sample.calls = some (s, os) ∧ WellShaped s ∧
      ∀ sid session, s.sessionMap sid = some session → Unreflected session := by
  have hsep : Meets (fun s e => e.1.separate s = true) (perform Sample.relayNode) {} Sample.calls :=
    Meets.of_meets (by decide)
  have hempty : WellShaped {} := fun _ _ h => nomatch h
  exact ⟨_, _, rfl, session_shape Sample.relayNode hempty hsep rfl⟩

/-- The second message of a stream makes it the later stream, too. -/
theorem not_wellShaped_twice : ∃ s os,
    run (perform Sample.relayNode) {} [Sample.setSession 0, Sample.setSession 0] = some (s, os) ∧
      ¬ WellShaped s := by
  refine ⟨_, _, rfl, ?_⟩
  intro h
  obtain ⟨-, early, he, hne⟩ := h "session" _ rfl
  obtain rfl := Option.some.inj he
  exact hne _ rfl rfl

end WhiteNoise.Shape
