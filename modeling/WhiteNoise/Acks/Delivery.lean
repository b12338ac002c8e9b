import WhiteNoise.Acks.Correlation

/-! # Whether a waiter gets its acknowledgement

`external_send_node_request_and_wait` puts its waiter into the bus before it
sends; `new_session_to_peer` writes the frame first. An acknowledgement that
arrives in between finds no waiter and is lost.
-/

namespace WhiteNoise.Acks

open Wire Process

section Run

variable [Codec] [Crypto]

/-- The output is a request, a command or a `SetSessionId` frame with the key. -/
def Leaves (key : String) : Output → Prop
  | .request (.proxyRequest r) => ∃ request, r.proxyRequest = some request ∧ request.reqId = key
  | .request (.cmdRequest r) => ∃ command, r.cmdRequest = some command ∧ command.commandId = key
  | .write _ b => ∃ relay : Relay, Codec.decode b = some relay ∧
      relay.type = Relaytype.setSessionId.toI32 ∧ relay.id = key
  | _ => False

/-- The two ways of sending a request and waiting. -/
inductive Path where
  | external (key : String) (r : NodeRequest) (h : ∀ k, Leaves k (.request r) ↔ key = k)
  | newSession (peer : PeerId) (sessionId : String) (myRole otherRole : Int32)

namespace Path

def thread : Path → Thread
  | external key r _ => do
    let _ ← Node.externalSendNodeRequestAndWait key r
    return none
  | newSession peer sessionId myRole otherRole => do
    let _ ← Node.newSessionToPeer peer sessionId myRole otherRole
    return none

/-- The turn that puts the waiter into the bus. -/
def registers : Path → ℕ
  | external .. => 1
  | newSession .. => 6

end Path

/-! ## Where the requester is -/

section

variable (peer : PeerId) (sessionId : String) (myRole otherRole : Int32) (ws : WrappedStream)

/-- What is left once the acknowledgement is there. -/
def afterAck : Async (Option WrappedStream) := do
  Async.spawn (.relayEventHandler ws (some sessionId))
  if (← Async.getSession sessionId).isNone then
    Async.insertSession sessionId ⟨sessionId, ⟨some ws, none⟩, myRole⟩
  else
    let session ← Prog.unwrap (← Async.getSession sessionId)
    Async.insertSession sessionId
      { session with pairStream := ⟨session.pairStream.earlyStream, some ws⟩ }
  return some ws

def waiting (w : ℕ) : Async (Option WrappedStream) := do
  let _ ← Async.awaitAck w
  afterAck sessionId myRole ws

def registering (key : String) : Async (Option WrappedStream) := do
  let w ← Async.registerWaiter key
  waiting sessionId myRole ws w

/-- The padded frame under its digest. -/
def setSessionFrame (confusion : Bytes) : Relay :=
  let relay := { newRelaySetSession sessionId otherRole with confusion := confusion }
  { relay with id := fromBytesGetId (Codec.encode relay) }

def writingFrame (confusion : Bytes) : Async (Option WrappedStream) := do
  let frame := setSessionFrame sessionId otherRole confusion
  Async.write ws (Codec.encode frame)
  registering sessionId myRole ws frame.id

def settingSession : Async (Option WrappedStream) := do
  let key ← writeSetSessionWithRoleArc ws sessionId otherRole
  registering sessionId myRole ws key

def writingWake (relay : Relay) : Async (Option WrappedStream) := do
  Async.write ws (Codec.encode relay)
  settingSession sessionId myRole otherRole ws

def waking : Async (Option WrappedStream) := do
  writeRelayWakeArc ws
  settingSession sessionId myRole otherRole ws

/-- The call as a thread: its result goes nowhere. -/
def ignoring (call : Async (Option WrappedStream)) : Thread := do
  let _ ← call
  return none

end

/-- The program changes neither the bus nor a receiver and sends nothing. -/
def Still (t : Thread) : Prop :=
  t.Within (fun f => ∀ s, SameBus s (f s))
    (fun a => (∃ w, a = .awaitAck w) ∨ ∃ task, a = .spawn task) fun task => task = none

/-- The requester after some turns: the key that left the node, the key under which the waiter
`w` is in the bus, and what is left to do. -/
inductive At (w : ℕ) : Path → ℕ → Option String → Option String → Thread → Prop
  | external {key r h} : At w (.external key r h) 0 none none (Path.external key r h).thread
  | sending {key r h} : At w (.external key r h) 1 none (some key) do
      Async.send r
      let _ ← Async.awaitAck w
      return none
  | sent {key r h n t} (hn : 2 ≤ n) (ht : Still t) :
      At w (.external key r h) n (some key) (some key) t
  | newSession {peer sid my other} : At w (.newSession peer sid my other) 0 none none
      (Path.newSession peer sid my other).thread
  | closed {peer sid my other} : At w (.newSession peer sid my other) 1 none none (.ret none)
  | waking {peer sid my other} (ws) :
      At w (.newSession peer sid my other) 1 none none (ignoring (Acks.waking sid my other ws))
  | writingWake {peer sid my other} (ws) (relay : Relay)
      (hr : relay.type = Relaytype.wake.toI32) :
      At w (.newSession peer sid my other) 2 none none
        (ignoring (Acks.writingWake sid my other ws relay))
  | settingSession {peer sid my other} (ws) :
      At w (.newSession peer sid my other) 3 none none
        (ignoring (Acks.settingSession sid my other ws))
  | writingFrame {peer sid my other} (ws) (confusion) :
      At w (.newSession peer sid my other) 4 none none
        (ignoring (Acks.writingFrame sid my other ws confusion))
  | registering {peer sid my other} (ws) (key) :
      At w (.newSession peer sid my other) 5 (some key) none
        (ignoring (Acks.registering sid my ws key))
  | waits {peer sid my other n t key} (hn : 6 ≤ n) (ht : Still t) :
      At w (.newSession peer sid my other) n (some key) (some key) t

variable {node : Node} {path : Path} {n w : ℕ} {left held : Option String} {t : Thread}
  {c : Choice} {s : Shared} {r : Reply Shared Task Output Thread}

omit [Codec] in
theorem still_afterAck (sid : String) (my : Int32) (ws : WrappedStream) :
    Still (ignoring (afterAck sid my ws)) := by
  have hinsert (session : Session) : Still (do
      Async.insertSession sid session
      return none) :=
    ⟨fun _ => ⟨rfl, rfl, rfl⟩, fun _ => rfl⟩
  refine ⟨Or.inr ⟨_, rfl⟩, fun _ => ⟨fun _ => .refl _, fun s => ?_⟩⟩
  cases hs : s.sessionMap sid with
  | none => simpa [hs, Still] using hinsert ⟨sid, ⟨some ws, none⟩, my⟩
  | some session =>
    simp only [Prog.bind_eq, Prog.ret_bind, hs, Option.isNone_some, Bool.false_eq_true, if_false,
      Async.getSession, Prog.read_bind]
    refine ⟨fun _ => .refl _, fun s' => ?_⟩
    cases hs' : s'.sessionMap sid with
    | none => simp [hs', Prog.Within]
    | some session' => simpa [hs', Still] using hinsert _

omit [Codec] in
theorem still_waiting (sid : String) (my : Int32) (ws : WrappedStream) (w : ℕ) :
    Still (ignoring (waiting sid my ws w)) := by
  refine ⟨Or.inl ⟨w, rfl⟩, fun ack => ?_⟩
  cases ack with
  | none => trivial
  | some ack => exact still_afterAck sid my ws

omit [Codec] in
theorem still_await (w : ℕ) : Still (do
    let _ ← Async.awaitAck w
    return none) := by
  refine ⟨Or.inl ⟨w, rfl⟩, fun ack => ?_⟩
  cases ack with
  | none => trivial
  | some ack => rfl

theorem Still.advance (h : Still t) (ha : (nodeSemantics node).advance c s t = some r) :
    Still r.answer ∧ SameBus s r.state ∧ r.outputs = [] := by
  cases t with
  | ret a =>
    cases a with
    | none => cases ha
    | some task => cases h
  | fail => cases ha
  | atomic f k =>
    cases ha
    exact ⟨h.2 s, h.1 s, rfl⟩
  | act a k =>
    obtain ⟨r', hr', rfl⟩ := Semantics.advance_act ha
    refine ⟨h.2 _, reply_bus hr', ?_⟩
    rcases h.1 with ⟨w, rfl⟩ | ⟨task, rfl⟩
    · simp only [nodeSemantics, Shared.reply] at hr'
      split at hr' <;> cases hr' <;> rfl
    · cases hr'
      rfl

theorem At.held_none (h : At w path n left held t) : held = none ↔ n < path.registers := by
  cases h <;> simp [Path.registers] <;> omega

theorem At.left_eq (h : At w path n left held t) {k k' : String} (hl : left = some k)
    (hh : held = some k') : k = k' := by
  cases h <;> simp_all

/-- One turn of the requester, in full. -/
theorem At.advance (h : At w path n left held t) (hw : held = none → s.nextOneshot = w)
    (ha : (nodeSemantics node).advance c s t = some r) :
    ∃ left' held', At w path (n + 1) left' held' r.answer ∧
      (∀ k, left = some k → left' = some k) ∧
      (∀ k, (∃ o ∈ r.outputs, Leaves k o) → left' = some k) ∧
      (held' = held ∧ SameBus s r.state ∨
        held = none ∧ ∃ key, held' = some key ∧ r.state = s.register key) := by
  cases h with
  | @external key q h =>
    cases ha
    obtain rfl := hw rfl
    exact ⟨none, some key, .sending, by simp, by simp, Or.inr ⟨rfl, key, rfl, rfl⟩⟩
  | @sending key q h =>
    cases ha
    refine ⟨some key, some key, .sent (Nat.le_refl 2) (still_await w), by simp, ?_,
      Or.inl ⟨rfl, .refl _⟩⟩
    rintro k ⟨o, ho, hk⟩
    obtain rfl := List.mem_singleton.mp ho
    rw [(h k).mp hk]
  | @sent key q h n t hn ht =>
    obtain ⟨ht', hs, ho⟩ := ht.advance ha
    exact ⟨some key, some key, .sent (by omega) ht', by simp, by simp [ho], Or.inl ⟨rfl, hs⟩⟩
  | @newSession peer sid my other =>
    rcases advance_newRelayStream ha with ⟨ws, -, -, -, rfl⟩ | rfl
    · exact ⟨none, none, .waking ws, by simp, by simp [Leaves], Or.inl ⟨rfl, ⟨rfl, rfl, rfl⟩⟩⟩
    · exact ⟨none, none, .closed, by simp, by simp, Or.inl ⟨rfl, .refl _⟩⟩
  | closed => cases ha
  | waking ws =>
    obtain ⟨confusion, rfl⟩ := advance_randomBelow ha
    exact ⟨none, none, .writingWake ws _ rfl, by simp, by simp, Or.inl ⟨rfl, .refl _⟩⟩
  | writingWake ws relay hrelay =>
    cases ha
    refine ⟨none, none, .settingSession ws, by simp, ?_, Or.inl ⟨rfl, .refl _⟩⟩
    rintro k ⟨o, ho, hk⟩
    obtain rfl := List.mem_singleton.mp ho
    obtain ⟨relay', hd, htype, -⟩ := hk
    rw [Codec.decode_encode] at hd
    cases hd
    rw [hrelay] at htype
    exact absurd htype (by decide)
  | settingSession ws =>
    obtain ⟨confusion, rfl⟩ := advance_randomBelow ha
    exact ⟨none, none, .writingFrame ws confusion, by simp, by simp, Or.inl ⟨rfl, .refl _⟩⟩
  | writingFrame ws confusion =>
    cases ha
    refine ⟨_, none, .registering ws _, by simp, ?_, Or.inl ⟨rfl, .refl _⟩⟩
    rintro k ⟨o, ho, hk⟩
    obtain rfl := List.mem_singleton.mp ho
    obtain ⟨relay', hd, -, rfl⟩ := hk
    rw [Codec.decode_encode] at hd
    cases hd
    rfl
  | registering ws key =>
    cases ha
    obtain rfl := hw rfl
    exact ⟨some key, some key, .waits (Nat.le_refl 6) (still_waiting _ _ _ _), by simp, by simp,
      Or.inr ⟨rfl, key, rfl, rfl⟩⟩
  | @waits peer sid my other n t key hn ht =>
    obtain ⟨ht', hs, ho⟩ := ht.advance ha
    exact ⟨some key, some key, .waits (by omega) ht', by simp, by simp [ho], Or.inl ⟨rfl, hs⟩⟩

/-! ## Whole runs -/

/-- The event is a turn of the requester or an acknowledgement for another key. -/
def Requesting (k : String) : Event → Prop
  | .thread i _ => i = 0
  | .ack _ ack => ack.commandId ≠ k
  | _ => False

/-- The number of turns of the requester. -/
def turns (es : List Event) : ℕ :=
  es.countP fun e => match e with
    | .thread .. => true
    | _ => false

omit [Codec] [Crypto] in
theorem turns_append (es es' : List Event) : turns (es ++ es') = turns es + turns es' :=
  List.countP_append

/-- The requester after `n` turns in a pool, and its receiver `w`. -/
structure Requester (w : ℕ) (path : Path) (n : ℕ) (left held : Option String) (p : NodePool) :
    Prop where
  wellFormed : WellFormed p.state
  thread : ∃ t, p.threads[0]? = some t ∧ At w path n left held t
  unmade : held = none → p.state.nextOneshot = w
  made : held ≠ none → w < p.state.nextOneshot

variable {k : String} {p p' q : NodePool} {e : Event} {es : List Event} {os : List Output}

/-- One event for the requester under the key. -/
theorem Requester.step (h : Requester w path n left held p) (hk : Requesting k e)
    (hs : nodeStep node p e = some (p', os)) :
    ∃ left' held', Requester w path (n + turns [e]) left' held' p' ∧
      (left = some k → left' = some k) ∧
      ((∃ o ∈ os, Leaves k o) → left' = some k) ∧
      ((held = some k → p.state.eventBus k = some w) →
        held' = some k → p'.state.eventBus k = some w) ∧
      BusStep p.state p'.state := by
  obtain ⟨hwf, ⟨t, ht, hat⟩, hunmade, hmade⟩ := h
  cases e with
  | thread i c =>
    obtain rfl : i = 0 := hk
    obtain ⟨t', r, ht', hr, hstate, hthreads, rfl⟩ := Semantics.step_eq_some _ hs
    obtain rfl := Option.some.inj (ht.symm.trans ht')
    obtain ⟨left', held', hat', hleft, hout, hbus⟩ := hat.advance hunmade hr
    have hlen : 0 < p.threads.length := (List.getElem?_eq_some_iff.mp ht).1
    have hthread : p'.threads[0]? = some r.answer := by
      rw [hthreads, List.getElem?_append_left (by simpa using hlen)]
      exact List.getElem?_set_self hlen
    rcases hbus with ⟨rfl, hsame⟩ | ⟨rfl, key, rfl, hreg⟩
    · rw [← hstate] at hsame
      refine ⟨left', held', ⟨hwf.same hsame, ⟨_, hthread, hat'⟩, ?_, ?_⟩, hleft k, hout k, ?_,
        .same hsame⟩
      · intro hh
        rw [hsame.nextOneshot, hunmade hh]
      · intro hh
        rw [hsame.nextOneshot]
        exact hmade hh
      · intro hb hh
        rw [hsame.eventBus, hb hh]
    · obtain rfl := hunmade rfl
      have hp' : p'.state = p.state.register key := by rw [hstate, hreg]
      refine ⟨left', some key, ⟨?_, ⟨_, hthread, hat'⟩, by simp, ?_⟩, hleft k, hout k, ?_,
        .register key hp'⟩
      · rw [hp']
        exact hwf.register key
      · intro _
        rw [hp']
        exact Nat.lt_succ_self _
      · intro _ hkey
        obtain rfl := Option.some.inj hkey
        rw [hp', register_eventBus, Function.update_self]
  | ack peer ack =>
    cases hs
    refine ⟨left, held, ⟨hwf.injectAck ack, ⟨t, ht, hat⟩, ?_, ?_⟩, id, by simp, ?_, .ack ack rfl⟩
    · simpa only [injectAck_nextOneshot] using hunmade
    · simpa only [injectAck_nextOneshot] using hmade
    · intro hb hh
      rw [injectAck_eventBus (Ne.symm hk), hb hh]
  | _ => cases hk

/-- A whole run of the requester under the key. -/
theorem Requester.run (h : Requester w path n left held p) (hk : ∀ e ∈ es, Requesting k e)
    (hr : run (nodeStep node) p es = some (q, os)) :
    ∃ left' held', Requester w path (n + turns es) left' held' q ∧
      (left = some k → left' = some k) ∧
      ((∃ o ∈ os, Leaves k o) → left' = some k) ∧
      ((held = some k → p.state.eventBus k = some w) →
        held' = some k → q.state.eventBus k = some w) ∧
      (w < p.state.nextOneshot → (∀ k', p.state.eventBus k' ≠ some w) →
        w < q.state.nextOneshot ∧ q.state.oneshots w = p.state.oneshots w ∧
          ∀ k', q.state.eventBus k' ≠ some w) := by
  revert hk
  refine run_induction
    (P := fun es q os => (∀ e ∈ es, Requesting k e) →
      ∃ left' held', Requester w path (n + turns es) left' held' q ∧
        (left = some k → left' = some k) ∧
        ((∃ o ∈ os, Leaves k o) → left' = some k) ∧
        ((held = some k → p.state.eventBus k = some w) →
          held' = some k → q.state.eventBus k = some w) ∧
        (w < p.state.nextOneshot → (∀ k', p.state.eventBus k' ≠ some w) →
          w < q.state.nextOneshot ∧ q.state.oneshots w = p.state.oneshots w ∧
            ∀ k', q.state.eventBus k' ≠ some w)) ?_ ?_ hr
  · intro _
    exact ⟨left, held, h, id, by simp, fun hb => hb, fun hlt hb => ⟨hlt, rfl, hb⟩⟩
  · intro es t os e t' o ih hs hk
    obtain ⟨l₁, h₁, hreq₁, hleft₁, hout₁, hbus₁, hoff₁⟩ :=
      ih fun e he => hk e (List.mem_append_left _ he)
    obtain ⟨l₂, h₂, hreq₂, hleft₂, hout₂, hbus₂, hstep⟩ := hreq₁.step (hk e (by simp)) hs
    rw [Nat.add_assoc, ← turns_append] at hreq₂
    refine ⟨l₂, h₂, hreq₂, fun hl => hleft₂ (hleft₁ hl), ?_, fun hb => hbus₂ (hbus₁ hb), ?_⟩
    · rintro ⟨o', ho', hl⟩
      rcases List.mem_append.mp ho' with ho' | ho'
      · exact hleft₂ (hout₁ ⟨o', ho', hl⟩)
      · exact hout₂ ⟨o', ho', hl⟩
    · intro hlt hb
      obtain ⟨hlt', ho, hb'⟩ := hoff₁ hlt hb
      obtain ⟨ho', hb''⟩ := hstep.settled hb' hlt'
      exact ⟨Nat.lt_of_lt_of_le hlt' hstep.next_le, ho'.trans ho, hb''⟩

theorem Path.start (path : Path) (hs : WellFormed s) :
    Requester s.nextOneshot path 0 none none ⟨s, [path.thread]⟩ := by
  refine ⟨hs, ⟨path.thread, rfl, ?_⟩, fun _ => rfl, by simp⟩
  cases path with
  | external => exact .external
  | newSession => exact .newSession

/-- Exactly when the acknowledgement reaches the requester: a request has left under its key,
it is delivered once, and by then the waiter is in the bus. -/
theorem obtained_iff {pre post : List Event} {p₁ p₂ : NodePool} {o₁ o₂ : List Output}
    {peer : PeerId} {ack : Ack} (hs : WellFormed s)
    (hpre : ∀ e ∈ pre, Requesting ack.commandId e) (hpost : ∀ e ∈ post, Requesting ack.commandId e)
    (h₁ : run (nodeStep node) ⟨s, [path.thread]⟩ pre = some (p₁, o₁))
    (hleaves : ∃ o ∈ o₁, Leaves ack.commandId o)
    (h₂ : run (nodeStep node) p₁ (.ack peer ack :: post) = some (p₂, o₂)) :
    p₂.state.oneshots s.nextOneshot = .sent ack ↔ path.registers ≤ turns pre := by
  obtain ⟨left₁, held₁, hreq₁, -, hout₁, hbus₁, -⟩ := (path.start hs).run hpre h₁
  obtain rfl := hout₁ hleaves
  obtain ⟨p', o, o', hack, hrun, -⟩ := run_cons_iff.mp h₂
  cases hack
  obtain ⟨hwf, ⟨t, ht, hat⟩, hunmade, hmade⟩ := hreq₁
  have hturns := hat.held_none
  rw [Nat.zero_add] at hturns
  have hack : Requester s.nextOneshot path (0 + turns pre) (some ack.commandId) held₁
      { p₁ with state := p₁.state.injectAck ack } :=
    ⟨hwf.injectAck ack, ⟨t, ht, hat⟩, by simpa only [injectAck_nextOneshot] using hunmade,
      by simpa only [injectAck_nextOneshot] using hmade⟩
  obtain ⟨left₂, held₂, hreq₂, hleft₂, -, hbus₂, hoff₂⟩ := hack.run hpost hrun
  obtain rfl := hleft₂ rfl
  cases held₁ with
  | none =>
    -- the waiter may still be registered afterwards, and then nobody resolves it
    have hempty : p₂.state.oneshots s.nextOneshot = .empty := by
      obtain ⟨hwf₂, ⟨t₂, -, hat₂⟩, hunmade₂, -⟩ := hreq₂
      cases held₂ with
      | none => exact hwf₂.fresh _ (Nat.le_of_eq (hunmade₂ rfl))
      | some key =>
        obtain rfl := hat₂.left_eq rfl rfl
        exact hwf₂.waits _ _ (hbus₂ (by simp) rfl)
    rw [hempty]
    simp only [reduceCtorEq, false_iff]
    have := hturns.mp rfl
    omega
  | some key =>
    obtain rfl := hat.left_eq rfl rfl
    have hb : p₁.state.eventBus ack.commandId = some s.nextOneshot := hbus₁ (by simp) rfl
    have hoff : ∀ k', (p₁.state.injectAck ack).eventBus k' ≠ some s.nextOneshot := by
      intro k' hk'
      obtain rfl := hwf.once _ _ _ (injectAck_eventBus_some hk') hb
      rw [injectAck_some hb] at hk'
      simp only [Function.update_self] at hk'
      cases hk'
    obtain ⟨-, ho, -⟩ := hoff₂ (by simpa only [injectAck_nextOneshot] using hmade (by simp)) hoff
    rw [ho]
    simp only [injectAck_some hb, Function.update_self, true_iff]
    by_contra hlt
    cases hturns.mpr (by omega)

/-- A request that waits by `external_send_node_request_and_wait` never leaves before its
waiter is in the bus. -/
theorem registered_external {key : String} {request : NodeRequest}
    {h : ∀ k, Leaves k (.request request) ↔ key = k} (hs : WellFormed s)
    (hk : ∀ e ∈ es, Requesting k e)
    (hr : run (nodeStep node) ⟨s, [(Path.external key request h).thread]⟩ es = some (q, os))
    (hleaves : ∃ o ∈ os, Leaves k o) : (Path.external key request h).registers ≤ turns es := by
  obtain ⟨left, held, ⟨-, ⟨t, -, hat⟩, -, -⟩, -, hout, -⟩ :=
    ((Path.external key request h).start hs).run hk hr
  obtain rfl := hout hleaves
  rw [Nat.zero_add] at hat
  generalize turns es = n at hat
  cases hat with
  | sent hn => exact Nat.le_of_succ_le hn

end Run

/-! ## Before and after the waiter -/

namespace Sample

def stream : WrappedStream := ⟨server 1, 0⟩

/-- A caller sets a session at its proxy. -/
def dialing : Path :=
  .newSession (server 1) "session" SessionRole.callerRole.toI32 SessionRole.entryRole.toI32

def frame : Relay := setSessionFrame "session" SessionRole.entryRole.toI32 []

def frameAck : Ack := ⟨frame.id, true, []⟩

/-- The frame is written, the waiter is not in the bus. -/
def written : List Event :=
  [.thread 0 (.stream (some stream)), .thread 0 (.bytes []), .thread 0 .go,
    .thread 0 (.bytes []), .thread 0 .go]

end Sample

theorem leaves_frame :
    Leaves Sample.frameAck.commandId (.write Sample.stream (Codec.encode Sample.frame)) :=
  ⟨Sample.frame, Codec.decode_encode _, rfl, rfl⟩

theorem obtained_registered : ∃ p o,
    run (nodeStep Sample.client) ⟨{}, [Sample.dialing.thread]⟩
      (Sample.written ++ [.thread 0 .go] ++ [.ack (Sample.server 1) Sample.frameAck]) =
      some (p, o) ∧ p.state.oneshots 0 = .sent Sample.frameAck := by
  obtain ⟨p, o, hr, hleaves⟩ : ∃ p o, run (nodeStep Sample.client)
      ⟨{}, [Sample.dialing.thread]⟩ (Sample.written ++ [.thread 0 .go]) = some (p, o) ∧
      ∃ x ∈ o, Leaves Sample.frameAck.commandId x :=
    ⟨_, _, rfl, _, .tail _ (.tail _ (.head _)), leaves_frame⟩
  have hack : run (nodeStep Sample.client) p [.ack (Sample.server 1) Sample.frameAck] =
      some ({ p with state := p.state.injectAck Sample.frameAck }, []) := rfl
  refine ⟨_, _, run_append_iff.mpr ⟨p, o, [], hr, hack, rfl⟩, ?_⟩
  have hturns : Sample.dialing.registers ≤ turns (Sample.written ++ [.thread 0 .go]) :=
    Nat.le_refl 6
  exact (obtained_iff WellFormed.initial (by simp [Sample.written, Requesting]) (by simp) hr
    hleaves hack).mpr hturns

/-- The acknowledgement of the frame that has just been written is lost. -/
theorem not_obtained_written : ∃ p o p' o',
    run (nodeStep Sample.client) ⟨{}, [Sample.dialing.thread]⟩ Sample.written = some (p, o) ∧
    (∃ x ∈ o, Leaves Sample.frameAck.commandId x) ∧
    run (nodeStep Sample.client) p
      [.ack (Sample.server 1) Sample.frameAck, .thread 0 .go] = some (p', o') ∧
    p'.state.oneshots 0 = .empty ∧ p'.state.nextOneshot = 1 :=
  ⟨_, _, _, _, rfl, ⟨_, .tail _ (.tail _ (.head _)), leaves_frame⟩, rfl, rfl, rfl⟩

end WhiteNoise.Acks
