import WhiteNoise.Network.Ideal
import WhiteNoise.Network.Turns
import WhiteNoise.Process.Courier

/-! # The handler of a replaced stream

After an entry node has become the relay, the handler of the stream it has
replaced still reads what is buffered there. It looks the session up for each
frame and no longer finds its stream, so it leaves the session alone.
-/

namespace WhiteNoise.Leftover

open Wire Process Semantics

section Generic

variable [Codec] [Crypto]

/-! ## The session and its streams -/

/-- A frame that neither closes nor opens a session, or the end of the stream. -/
def Late : ReadResult → Prop
  | .error _ => True
  | .ok b => ∀ relay : Relay, Codec.decode b = some relay →
    relay.type ≠ Relaytype.disconnect.toI32 ∧ relay.type ≠ Relaytype.setSessionId.toI32

/-- The session has none of the streams. -/
def Apart (own : ℕ → Prop) (session : Session) : Prop :=
  ∀ x, session.pairStream.has x → ¬ own x

/-- While it is there, the session is that of an entry node, the replaced stream is not one of its
streams, and no other session or circuit has one of them. What waits on the replaced stream neither
closes nor opens a session. -/
structure Guarded (sid : String) (w : WrappedStream) (own : ℕ → Prop) (s : Shared) : Prop where
  late : ∀ res ∈ s.inbox w.streamId, Late res
  entry : ∀ session, s.sessionMap sid = some session →
    session.sessionRole = SessionRole.entryRole.toI32
  replaced : ∀ session, s.sessionMap sid = some session →
    session.pairStream.has w.streamId = false
  streams : ∀ session, s.sessionMap sid = some session → ∀ x, session.pairStream.has x → own x
  sessions : ∀ y, y ≠ sid → ∀ session, s.sessionMap y = some session → Apart own session
  circuits : ∀ y, y ≠ sid → ∀ conn, s.circuitMap y = some conn → ¬ own conn.outStream.streamId

/-- The output is no frame on one of the streams, and closes none of them. -/
def Output.Spares (own : ℕ → Prop) : Output → Prop
  | .write x _ | .close x => ¬ own x.streamId
  | _ => True

/-- The task writes to another stream. -/
def Task.Spares (own : ℕ → Prop) : Task → Prop
  | .writeRelayArc x _ => ¬ own x.streamId
  | .processHandshake conn _ _ => ¬ own conn.outStream.streamId
  | _ => False

def Act.Spares (own : ℕ → Prop) : Act → Prop
  | .write x _ | .close x => ¬ own x.streamId
  | .spawn t => Task.Spares own t
  | _ => True

/-- An operation leaves the session and its streams alone. -/
def contract (sid : String) (w : WrappedStream) (own : ℕ → Prop) :
    Contract Shared Act Task Choice Output Empty where
  Inv := Guarded sid w own
  Allows _ := True
  Asks _ _ := True
  Moves s s' os ts _ _ := s'.sessionMap sid = s.sessionMap sid ∧
    (∀ o ∈ os, Output.Spares own o) ∧ ∀ t ∈ ts, Task.Spares own t
  mayFail := True

section

variable {node : Node} {sid y : String} {w x : WrappedStream} {own : ℕ → Prop} {s : Shared}
  {session : Session} {relay : Relay} {α : Type} {P : α → Prop}

/-- The program leaves the session and its streams alone, its result being in `P`. -/
abbrev Spared (node : Node) (sid : String) (w : WrappedStream) (own : ℕ → Prop) {α : Type}
    (P : α → Prop) (p : Async α) : Prop :=
  (nodeSemantics node).Keeps (contract sid w own) P p

theorem spared_update {f : Shared → Shared} {g : Shared → α}
    (hf : ∀ s, (f s).sessionMap sid = s.sessionMap sid) (hg : ∀ s, Guarded sid w own s → P (g s)) :
    Spared node sid w own P (Prog.update f g) := by
  apply Keeps.update
  · rintro s -
    exact ⟨hf s, by simp, by simp⟩
  · exact hg

omit [Codec] in
theorem reply_spares {a : Act} {c : Choice} {r : Reply Shared Task Output a.Res}
    (ha : Act.Spares own a) (h : Shared.reply a c s = some r) :
    r.state.sessionMap sid = s.sessionMap sid ∧ (∀ o ∈ r.outputs, Output.Spares own o) ∧
      ∀ t ∈ r.spawned, Task.Spares own t := by
  refine ⟨by rw [(reply_sameMaps h).sessionMap], ?_, ?_⟩
  · rw [Shared.reply_outputs h]
    rintro o ho
    cases a with
    | newRelayStream peer =>
      cases hans : r.answer with
      | none => simp [Act.outputs, hans] at ho
      | some v =>
        simp only [Act.outputs, hans, List.mem_singleton] at ho
        rw [ho]
        trivial
    | write | close | send | publish =>
      obtain rfl := List.mem_singleton.mp ho
      exact ha
    | _ => cases ho
  · rintro t ht
    rcases a.plain_or with hplain | ⟨task, rfl⟩ | ⟨v, rfl⟩
    · rw [(reply_plain hplain h).2] at ht
      cases ht
    · cases h
      obtain rfl := List.mem_singleton.mp ht
      exact ha
    · obtain ⟨res, rest, -, rfl⟩ := Shared.dequeue_eq_some h
      cases ht

theorem spared_call {a : Act} (ha : Act.Spares own a) :
    Spared node sid w own (fun _ => True) (Prog.call a) := by
  apply Keeps.call trivial
  rintro s c r - - hr
  exact ⟨reply_spares ha hr, trivial⟩

theorem spared_unwrap (o : Option α) : Spared node sid w own (fun a => o = some a) (Prog.unwrap o) :=
  .unwrap trivial fun _ h => h

/-! ## Frames -/

theorem spared_writeRelayArc (hx : ¬ own x.streamId) :
    Spared node sid w own (fun _ => True) (writeRelayArc x relay) := by
  have hpad : Spared node sid w own (fun _ => True) (confusionRelay relay) := by
    apply Keeps.bind (spared_call (a := .randomBelow _) trivial)
    rintro confusion -
    exact Keeps.ret trivial
  apply Keeps.bind hpad
  rintro padded -
  apply Keeps.bind (spared_call (a := .write x _) hx)
  rintro - -
  exact Keeps.ret trivial

/-- What a look at the session of the identifier shows. -/
inductive Seen (sid : String) (w : WrappedStream) (own : ℕ → Prop) (y : String)
    (session : Session) : Prop
  | kept (hy : y = sid) (hentry : session.sessionRole = SessionRole.entryRole.toI32)
      (hreplaced : session.pairStream.has w.streamId = false)
  | other (hy : y ≠ sid) (happart : Apart own session)

theorem spared_getSession : Spared node sid w own
    (fun o => ∀ session, o = some session → Seen sid w own y session) (Async.getSession y) := by
  apply spared_update (fun _ => rfl)
  rintro s hs session hsession
  by_cases hy : y = sid
  · subst hy
    exact .kept rfl (hs.entry session hsession) (hs.replaced session hsession)
  · exact .other hy (hs.sessions y hy session hsession)

omit [Codec] [Crypto] in
theorem Apart.early (h : Apart own session) (hx : session.pairStream.earlyStream = some x) :
    ¬ own x.streamId := h _ (by simp [PairStream.has, hx])

omit [Codec] [Crypto] in
theorem Apart.later (h : Apart own session) (hx : session.pairStream.laterStream = some x) :
    ¬ own x.streamId := h _ (by simp [PairStream.has, hx])

/-- The session that has lost the stream gets no frame from it, another one gets it on a stream of
its own. -/
theorem spared_forwardRelay (h : Seen sid w own y session) :
    Spared node sid w own (fun _ => True) (forwardRelay session w.streamId relay) := by
  apply Keeps.bind (spared_unwrap _)
  rintro early hearly
  have hwrite {x : WrappedStream} (hx : ¬ own x.streamId) : Spared node sid w own (fun _ => True) (do
      let _ ← writeRelayArc x relay : Async Unit) := by
    apply Keeps.bind (spared_writeRelayArc hx)
    rintro - -
    exact Keeps.ret trivial
  cases h with
  | kept hy hentry hreplaced =>
    simp only [PairStream.has, hearly, Option.any_some, Bool.or_eq_false_iff,
      decide_eq_false_iff_not] at hreplaced
    rw [if_neg hreplaced.1]
    apply Keeps.bind (spared_unwrap _)
    rintro later hlater
    have hne : later.streamId ≠ w.streamId := by simpa [hlater] using hreplaced.2
    rw [if_neg hne]
    exact Keeps.ret trivial
  | other hy happart =>
    apply Keeps.ite
    · rintro -
      apply Keeps.bind (spared_unwrap _)
      rintro later hlater
      exact hwrite (happart.later hlater)
    · rintro -
      apply Keeps.bind (spared_unwrap _)
      rintro later hlater
      apply Keeps.ite
      · rintro -
        exact hwrite (happart.early hearly)
      · rintro -
        exact Keeps.ret trivial

theorem spared_sendRelayTwoway (h : Apart own session) :
    Spared node sid w own (fun _ => True) (sendRelayTwoway session relay) := by
  have hspawn {x : WrappedStream} (hx : ¬ own x.streamId) :
      Spared node sid w own (fun _ => True) (Async.spawn (.writeRelayArc x relay)) :=
    spared_call (a := .spawn (.writeRelayArc x relay)) hx
  unfold sendRelayTwoway
  cases hearly : session.pairStream.earlyStream <;> cases hlater : session.pairStream.laterStream
  · exact Keeps.ret trivial
  · exact hspawn (h.later hlater)
  · apply Keeps.bind (hspawn (h.early hearly))
    rintro - -
    exact Keeps.ret trivial
  · apply Keeps.bind (hspawn (h.early hearly))
    rintro - -
    exact hspawn (h.later hlater)

theorem spared_handleCloseSession (hy : y ≠ sid) :
    Spared node sid w own (fun _ => True) (Node.handleCloseSession y) := by
  have htail : Spared node sid w own (fun _ => True) (do
      Async.removeCircuit y
      Async.removeProbe y) := by
    have hcircuit : Spared node sid w own (fun _ => True) (Async.removeCircuit y) :=
      spared_update (fun _ => rfl) fun _ _ => trivial
    apply Keeps.bind hcircuit
    rintro - -
    exact spared_update (fun _ => rfl) fun _ _ => trivial
  have hremove : Spared node sid w own (fun o => ∀ session, o = some session → Apart own session)
      (Async.removeSession y) := by
    apply spared_update
    · rintro s
      exact Function.update_of_ne hy.symm _ _
    · rintro s hs session hsession
      exact hs.sessions y hy session hsession
  have hclose {x : WrappedStream} (hx : ¬ own x.streamId) :
      Spared node sid w own (fun _ => True) (Async.close x) := spared_call (a := .close x) hx
  apply Keeps.bind hremove
  rintro (_ | session) happart
  · exact htail
  · have hsession := happart session rfl
    dsimp only
    cases hearly : session.pairStream.earlyStream with
    | none =>
      cases hlater : session.pairStream.laterStream with
      | none => exact htail
      | some later =>
        apply Keeps.bind (hclose (hsession.later hlater))
        rintro - -
        exact htail
    | some early =>
      apply Keeps.bind (hclose (hsession.early hearly))
      rintro - -
      cases hlater : session.pairStream.laterStream with
      | none => exact htail
      | some later =>
        apply Keeps.bind (hclose (hsession.later hlater))
        rintro - -
        exact htail

/-! ## The handler -/

theorem spared_handleRelayProbe :
    Spared node sid w own (fun _ => True) (handleRelayProbe y w relay) := by
  have hread {β : Type} {g : Shared → β} : Spared node sid w own (fun _ => True) (Prog.read g) :=
    spared_update (fun _ => rfl) fun _ _ => trivial
  apply Keeps.bind (spared_unwrap _)
  rintro probe -
  apply Keeps.bind spared_getSession
  rintro (_ | session) hseen
  · exact Keeps.ret trivial
  · have hsession := hseen session rfl
    apply Keeps.ite
    · rintro hsink
      cases hsession with
      | kept hy hentry hreplaced =>
        rw [hentry] at hsink
        exact absurd hsink (by decide)
      | other hy happart =>
        apply Keeps.bind hread
        rintro found -
        apply Keeps.ite
        · rintro -
          apply Keeps.bind hread
          rintro o -
          apply Keeps.bind (spared_unwrap _)
          rintro existProbe -
          apply Keeps.ite
          · rintro -
            exact spared_sendRelayTwoway happart
          · rintro -
            exact spared_handleCloseSession hy
        · rintro -
          exact spared_update (fun _ => rfl) fun _ _ => trivial
    · rintro -
      apply Keeps.ite
      · rintro -
        exact spared_forwardRelay hsession
      · rintro -
        exact Keeps.ret trivial

theorem spared_handleSuccess : Spared node sid w own (fun _ => True) (handleSuccess w relay) := by
  unfold handleSuccess
  cases (Codec.decode relay.data : Option CircuitSuccess) with
  | none => exact Keeps.ret trivial
  | some msg =>
    apply Keeps.bind spared_getSession
    rintro (_ | session) hseen
    · exact Keeps.ret trivial
    · have hsession := hseen session rfl
      have hspawn {initiate : Bool} (hy : msg.sessionId ≠ sid) :
          Spared node sid w own (fun _ => True) (do
            let circuitConn ← Prog.unwrap (← Async.getCircuit msg.sessionId)
            Async.spawn (.processHandshake circuitConn initiate msg.sessionId)) := by
        have hcircuit : Spared node sid w own
            (fun o => ∀ conn, o = some conn → ¬ own conn.outStream.streamId)
            (Async.getCircuit msg.sessionId) := by
          apply spared_update (fun _ => rfl)
          rintro s hs conn hconn
          exact hs.circuits _ hy conn hconn
        apply Keeps.bind hcircuit
        rintro o ho
        apply Keeps.bind (spared_unwrap _)
        rintro conn hconn
        exact spared_call (a := .spawn _) (ho conn hconn)
      have hother {role : Int32} (hrole : session.sessionRole = role)
          (hne : role ≠ SessionRole.entryRole.toI32) : msg.sessionId ≠ sid := by
        cases hsession with
        | kept hy hentry hreplaced => exact absurd (hrole.symm.trans hentry) hne
        | other hy happart => exact hy
      apply Keeps.ite
      · rintro hcaller
        exact hspawn (hother hcaller (by decide))
      · rintro -
        apply Keeps.ite
        · rintro hanswer
          exact hspawn (hother hanswer (by decide))
        · rintro -
          apply Keeps.ite
          · rintro -
            exact spared_forwardRelay hsession
          · rintro -
            exact Keeps.ret trivial

theorem spared_handleRelayMsg : Spared node sid w own (fun _ => True) (handleRelayMsg w relay) := by
  unfold handleRelayMsg
  cases (Codec.decode relay.data : Option RelayMsg) with
  | none => exact Keeps.ret trivial
  | some msg =>
    apply Keeps.bind spared_getSession
    rintro (_ | session) hseen
    · exact Keeps.ret trivial
    · apply Keeps.ite
      · rintro -
        apply spared_update
        · rintro s
          cases s.circuitMap msg.sessionId <;> rfl
        · rintro - -
          trivial
      · rintro -
        apply Keeps.ite
        · rintro -
          exact spared_forwardRelay (hseen session rfl)
        · rintro -
          exact Keeps.ret trivial

theorem spared_relayEvent {current : Option String}
    (hdisconnect : relay.type ≠ Relaytype.disconnect.toI32)
    (hset : relay.type ≠ Relaytype.setSessionId.toI32) :
    Spared node sid w own (fun _ => True) (relayEvent w current relay) := by
  have hnext {p : Async Unit} (hp : Spared node sid w own (fun _ => True) p) :
      Spared node sid w own (fun _ => True) (do
        p
        return some current : Async (Option (Option String))) := by
    apply Keeps.bind hp
    rintro - -
    exact Keeps.ret trivial
  unfold relayEvent
  rw [if_neg hdisconnect, if_neg hset]
  apply Keeps.ite
  · rintro -
    exact Keeps.ret trivial
  · rintro -
    apply Keeps.ite
    · rintro -
      exact Keeps.ret trivial
    · rintro -
      apply Keeps.ite
      · rintro -
        apply Keeps.bind (spared_unwrap _)
        rintro y -
        exact hnext spared_handleRelayProbe
      · rintro -
        apply Keeps.ite
        · rintro -
          exact hnext spared_handleSuccess
        · rintro -
          apply Keeps.ite
          · rintro -
            exact hnext spared_handleRelayMsg
          · rintro -
            exact Keeps.ret trivial

theorem spared_relayStreamError {current : Option String} :
    Spared node sid w own (fun _ => True) (relayStreamError w current) := by
  cases current with
  | none => exact Keeps.ret trivial
  | some y =>
    apply Keeps.bind spared_getSession
    rintro o hseen
    apply Keeps.ite
    · rintro hfind
      obtain ⟨session, rfl, hhas⟩ := (Option.any_eq_true ..).mp hfind
      cases hseen session rfl with
      | kept hy hentry hreplaced =>
        rw [hreplaced] at hhas
        cases hhas
      | other hy happart => exact spared_handleCloseSession hy
    · rintro -
      exact Keeps.ret trivial

/-- The next turn is one of the same handler. -/
def Next (w : WrappedStream) (o : Option Task) : Prop :=
  ∀ task, o = some task → ∃ current, task = .relayEventHandler w current

theorem spared_relayEventHandler {current : Option String} :
    Spared node sid w own (Next w) (relayEventHandler w current) := by
  have hread : Spared node sid w own Late (Prog.call (Act.read w)) := by
    apply Keeps.call trivial
    rintro s c r hs - hr
    have hreply : Shared.reply (.read w) c s = some r := hr
    refine ⟨reply_spares trivial hreply, ?_⟩
    obtain ⟨res, rest, hinbox, rfl⟩ := Shared.dequeue_eq_some hreply
    exact hs.late res (hinbox ▸ List.mem_cons_self)
  rw [relayEventHandler_eq]
  apply Keeps.bind hread
  rintro (e | b) hlate
  · apply Keeps.bind spared_relayStreamError
    rintro - -
    exact Keeps.ret nofun
  · apply Keeps.bind (spared_unwrap _)
    rintro relay hrelay
    obtain ⟨hdisconnect, hset⟩ := hlate relay hrelay
    apply Keeps.bind (spared_relayEvent hdisconnect hset)
    rintro (_ | next) -
    · exact Keeps.ret nofun
    · apply Keeps.ret
      rintro task htask
      exact ⟨next, (Option.some.inj htask).symm⟩

/-! ## Runs -/

/-- Thread `i` handles the stream, and leaves the session and its streams alone. -/
def Handles (node : Node) (sid : String) (w : WrappedStream) (own : ℕ → Prop) (i : ℕ)
    (p : NodePool) : Prop :=
  ∃ t, p.threads[i]? = some t ∧ Spared node sid w own (Next w) t

/-- The step leaves the session as it is, no frame goes out on one of the streams, none of them is
closed, and the tasks that are started write to other streams. -/
structure Unharmed (node : Node) (sid : String) (own : ℕ → Prop) (i : ℕ) (p p' : NodePool)
    (os : List Output) : Prop where
  session : p'.state.sessionMap sid = p.state.sessionMap sid
  outputs : ∀ o ∈ os, Output.Spares own o
  spawned : ∃ (t : Thread) (ts : List Task),
    p'.threads = p.threads.set i t ++ ts.map (Task.body node) ∧ ∀ t ∈ ts, Task.Spares own t

variable {i : ℕ} {p p' : NodePool} {e : Event} {os : List Output}

/-- The handler takes a turn. -/
theorem Handles.turn {c : Choice} (h : Handles node sid w own i p) (hs : Guarded sid w own p.state)
    (hstep : nodeStep node p (.thread i c) = some (p', os)) :
    Handles node sid w own i p' ∧ Unharmed node sid own i p p' os := by
  obtain ⟨t, ht, hspared⟩ := h
  obtain ⟨t', r, ht', hr, hstate, hthreads, rfl⟩ := (nodeSemantics node).step_eq_some hstep
  obtain rfl := Option.some.inj (ht.symm.trans ht')
  have hlt : i < p.threads.length := (List.getElem?_eq_some_iff.mp ht).1
  have hbody (held : List Empty) (task : Task) (hnext : held = [] ∧ Next w (some task)) :
      (nodeSemantics node).Carries (contract sid w own) (fun held a => held = [] ∧ Next w a)
        (Task.body node task) held := by
    obtain ⟨rfl, hnext⟩ := hnext
    obtain ⟨current, rfl⟩ := hnext task rfl
    exact spared_relayEventHandler
  have hidle (s : Shared) (_ : Guarded sid w own s) :
      (contract sid w own).Moves s s [] [] [] [] := ⟨rfl, by simp, by simp⟩
  obtain ⟨inn, out, held', -, ⟨hsession, houtputs, hspawned⟩, hgoes⟩ :=
    Carries.advance hidle hbody hspared hs trivial hr
  obtain rfl : held' = [] := List.eq_nil_iff_forall_not_mem.mpr fun x => x.elim
  constructor
  · refine ⟨r.answer, ?_, hgoes⟩
    rw [hthreads, List.getElem?_append_left (by simpa using hlt), List.getElem?_set_self hlt]
  · refine ⟨?_, houtputs, r.answer, r.spawned, hthreads, hspawned⟩
    rw [hstate]
    exact hsession

/-- An event that is no turn of the thread leaves it where it is. -/
theorem Handles.other (h : Handles node sid w own i p) (he : ∀ c, e ≠ .thread i c)
    (hstep : nodeStep node p e = some (p', os)) : Handles node sid w own i p' := by
  obtain ⟨t, ht, hspared⟩ := h
  have hlt : i < p.threads.length := (List.getElem?_eq_some_iff.mp ht).1
  refine ⟨t, ?_, hspared⟩
  by_cases hthread : ∃ j c, e = .thread j c
  · obtain ⟨j, c, rfl⟩ := hthread
    have hj : j ≠ i := by
      rintro rfl
      exact he c rfl
    obtain ⟨t', r, -, -, -, hthreads, -⟩ := (nodeSemantics node).step_eq_some hstep
    rw [hthreads, List.getElem?_append_left (by simpa using hlt), List.getElem?_set_ne hj, ht]
  · obtain ⟨-, -, -, ts, hthreads⟩ := nodeStep_arrival (fun j c heq => hthread ⟨j, c, heq⟩) hstep
    rw [hthreads, List.getElem?_append_left hlt, ht]

theorem Handles.run {es : List Event} (h : Handles node sid w own i p)
    (hguarded : Meets (fun p _ => Guarded sid w own p.state) (nodeStep node) p es)
    (hrun : run (nodeStep node) p es = some (p', os)) : Handles node sid w own i p' := by
  refine run_induction_meets (P := fun _ p _ => Handles node sid w own i p) h ?_ hguarded hrun
  rintro es p os e p' os' hhandles hguarded hstep
  by_cases he : ∃ c, e = .thread i c
  · obtain ⟨c, rfl⟩ := he
    exact (hhandles.turn hguarded hstep).1
  · exact hhandles.other (fun c heq => he ⟨c, heq⟩) hstep

/-- The session has two streams, and the replaced one is neither of them. -/
theorem guarded_of_pair {early later : WrappedStream} (hlate : ∀ res ∈ s.inbox w.streamId, Late res)
    (hsessions : ∀ y, y ≠ sid → ∀ session, s.sessionMap y = some session → Apart own session)
    (hcircuits : ∀ y, y ≠ sid → ∀ conn, s.circuitMap y = some conn → ¬ own conn.outStream.streamId)
    (hsession : s.sessionMap sid = some session)
    (hentry : session.sessionRole = SessionRole.entryRole.toI32)
    (hpair : session.pairStream = ⟨some early, some later⟩)
    (hearly : early.streamId ≠ w.streamId) (hlater : later.streamId ≠ w.streamId)
    (hown : own early.streamId ∧ own later.streamId) : Guarded sid w own s := by
  have hsame {session' : Session} (h : s.sessionMap sid = some session') : session' = session :=
    Option.some.inj (h.symm.trans hsession)
  constructor
  · exact hlate
  · rintro session' h
    rw [hsame h]
    exact hentry
  · rintro session' h
    rw [hsame h, hpair]
    simp [PairStream.has, hearly, hlater]
  · rintro session' h x hx
    rw [hsame h, hpair] at hx
    simp only [PairStream.has, Option.any_some, Bool.or_eq_true, decide_eq_true_eq] at hx
    rcases hx with rfl | rfl
    · exact hown.1
    · exact hown.2
  · exact hsessions
  · exact hcircuits

/-- From a read on, no step of the handler of a replaced stream does anything to the session or to
its streams, whatever the other tasks do in between. -/
theorem replaced_stream_harmless (node : Node) {current : Option String} {c : Choice}
    {es : List Event} {p p₁ p₂ : NodePool} {os os₁ : List Output}
    (ht : p.threads[i]? = some (Task.body node (.relayEventHandler w current)))
    (hguarded : Meets (fun p _ => Guarded sid w own p.state) (nodeStep node) p
      (es ++ [.thread i c]))
    (hrun : run (nodeStep node) p es = some (p₁, os))
    (hstep : nodeStep node p₁ (.thread i c) = some (p₂, os₁)) :
    Unharmed node sid own i p₁ p₂ os₁ := by
  have hhandles : Handles node sid w own i p := ⟨_, ht, spared_relayEventHandler⟩
  have hguarded₁ : Guarded sid w own p₁.state := hguarded es _ [] p₁ os rfl hrun
  exact ((hhandles.run hguarded.of_concat hrun).turn hguarded₁ hstep).2

end

end Generic

/-! ## An entry node that becomes the relay -/

namespace Sample

def node : Node := ⟨(⟨.ed25519, List.replicate 32 7⟩ : Ideal.Keypair), none, none⟩

/-- The stream of the caller, the one to the sink, and the one of the access node. -/
def early : WrappedStream := ⟨⟨"caller"⟩, 0⟩

def sink : WrappedStream := ⟨⟨"sink"⟩, 1⟩

def access : WrappedStream := ⟨⟨"access"⟩, 2⟩

def entry (sid : String) (later : WrappedStream) : Session :=
  ⟨sid, ⟨some early, some later⟩, SessionRole.entryRole.toI32⟩

/-- The handler of the stream that is replaced, and the call that replaces it. -/
def start (sessions : String → Option Session) (replaced : WrappedStream) (res : ReadResult) :
    NodePool :=
  ⟨{ sessionMap := sessions
     inbox := fun n => if n = replaced.streamId then [res] else [] },
    [Task.body node (.relayEventHandler replaced (some "session")), do
      handleSetSession ⟨"session", SessionRole.relayRole.toI32⟩ access "frame"
      return none]⟩

def handler : Event := .thread 0 .go

def call : Event := .thread 1 .go

def sessions (later : WrappedStream) : String → Option Session :=
  Function.update (fun _ => none) "session" (some (entry "session" later))

/-- The access node has replaced the sink, whose stream has come to its end. -/
def replaced : NodePool := start (sessions access) sink (.error (.io "closed"))

theorem guarded {waiting : ℕ → List ReadResult} (h : ∀ res ∈ waiting sink.streamId, Late res) :
    Guarded "session" sink (fun x => x = 0 ∨ x = 2)
      { sessionMap := sessions access, inbox := waiting } := by
  refine guarded_of_pair h ?_ nofun rfl rfl rfl (by decide) (by decide) (by decide)
  rintro y hy session hsession
  have hnone : sessions access y = none := Function.update_of_ne hy _ _
  cases hnone.symm.trans hsession

end Sample

theorem replaced_stream_harmless_error : ∃ p₁ p₂ os os₁,
    run (nodeStep Sample.node) Sample.replaced [Sample.handler] = some (p₁, os) ∧
    nodeStep Sample.node p₁ Sample.handler = some (p₂, os₁) ∧
    Unharmed Sample.node "session" (fun x => x = 0 ∨ x = 2) 0 p₁ p₂ os₁ := by
  have hguarded : Meets (fun p _ => Guarded "session" Sample.sink (fun x => x = 0 ∨ x = 2) p.state)
      (nodeStep Sample.node) Sample.replaced ([Sample.handler] ++ [.thread 0 .go]) := by
    apply Meets.cons
    · apply Sample.guarded
      rintro res hres
      obtain rfl := List.mem_singleton.mp hres
      trivial
    · rintro p os hstep
      cases hstep
      apply Meets.cons
      · apply Sample.guarded
        rintro res hres
        cases hres
      · rintro p os -
        exact Meets.nil
  exact ⟨_, _, _, _, rfl, rfl, replaced_stream_harmless Sample.node rfl hguarded rfl rfl⟩

/-- Three runs in which the handler of the replaced stream harms the session: it has found its stream
in the session before the replacement and closes the session after it; the replaced stream is the
early one as well; a buffered frame names another session with the same two streams. -/
theorem not_replaced_stream_harmless :
    (∃ p p' os os',
      run (nodeStep Sample.node) (Sample.start (Sample.sessions Sample.sink) Sample.sink
        (.error (.io "closed"))) [Sample.call, Sample.handler, Sample.handler, Sample.call] =
          some (p, os) ∧
      p.state.sessionMap "session" = some (Sample.entry "session" Sample.access) ∧
      run (nodeStep Sample.node) p [Sample.handler] = some (p', os') ∧
      p'.state.sessionMap "session" = none) ∧
    (∃ p p' os os',
      run (nodeStep Sample.node) (Sample.start (Sample.sessions Sample.early) Sample.early
        (.error (.io "closed"))) [Sample.call, Sample.call] = some (p, os) ∧
      p.state.sessionMap "session" = some (Sample.entry "session" Sample.access) ∧
      run (nodeStep Sample.node) p [Sample.handler, Sample.handler, Sample.handler] =
        some (p', os') ∧
      p'.state.sessionMap "session" = none) ∧
    ∃ p p' os os',
      run (nodeStep Sample.node) (Sample.start (Function.update (Sample.sessions Sample.sink) "other"
        (some (Sample.entry "other" Sample.sink))) Sample.sink
          (.ok (Codec.encode (payloadRelay [] "other")))) [Sample.call, Sample.call] = some (p, os) ∧
      p.state.sessionMap "session" = some (Sample.entry "session" Sample.access) ∧
      run (nodeStep Sample.node) p [Sample.handler, Sample.handler, .thread 0 (.bytes []),
        Sample.handler] = some (p', os') ∧ ∃ b, .write Sample.early b ∈ os' := by
  refine ⟨⟨_, _, _, _, rfl, rfl, rfl, rfl⟩, ⟨_, _, _, _, rfl, rfl, rfl, rfl⟩, ?_⟩
  exact ⟨_, _, _, _, rfl, rfl, rfl, _, List.mem_singleton_self _⟩

end WhiteNoise.Leftover
