import WhiteNoise.Network.Ideal
import WhiteNoise.Session.Operations

/-! # The streams that a handler leaves behind

A handler knows one session, the one of its first frame that joins one, and
closes no other when it ends. A stream is left without a handler if it has
been attached to another session, or if the handler ends without a close.
-/

namespace WhiteNoise.Service

open Wire Process

section Generic

variable [Codec] [Crypto]

/-- The session has the stream. -/
def Holds (w : WrappedStream) (s : Shared) (sid : String) : Prop :=
  (s.sessionMap sid).any (·.pairStream.has w.streamId)

/-- No session has the stream but the current one of its handler. -/
def Serves (w : WrappedStream) (current : Option String) (s : Shared) : Prop :=
  ∀ sid, Holds w s sid → current = some sid

/-! ## The handler and the other threads -/

/-- What the thread reads from a stream in the event. -/
def reading (i : ℕ) (p : NodePool) : Event → Option ReadResult
  | .thread j _ =>
    if j = i then
      match p.threads[i]? with
      | some (.act (.read w) _) => (p.state.inbox w.streamId).head?
      | _ => none
    else none
  | _ => none

/-- The session variable of a handler after it has read the frame. -/
def nextCurrent (current : Option String) : ReadResult → Option String
  | .error _ => current
  | .ok msg =>
    match (Codec.decode msg : Option Relay) with
    | none => current
    | some relay =>
      if relay.type = Relaytype.setSessionId.toI32 then
        match (Codec.decode relay.data : Option SetSessionIdMsg) with
        | none => current
        | some msg => some (current.getD msg.sessionId)
      else current

/-- The frame joins or disconnects no session but the current one. -/
def isOwn (current : Option String) : ReadResult → Bool
  | .error _ => true
  | .ok msg =>
    match (Codec.decode msg : Option Relay) with
    | none => true
    | some relay =>
      if relay.type = Relaytype.setSessionId.toI32 then
        (Codec.decode relay.data : Option SetSessionIdMsg).all fun msg =>
          current.all (· = msg.sessionId)
      else if relay.type = Relaytype.disconnect.toI32 then
        current.all fun sid =>
          (Codec.decode relay.data : Option Disconnect).any (·.sessionId = sid)
      else true

/-- A pool, and the session variable of the handler that is observed. -/
structure Watch where
  pool : NodePool
  current : Option String

/-- One event at the node, thread `i` being the handler. -/
def step (node : Node) (i : ℕ) (v : Watch) (e : Event) : Option (Watch × List Output) :=
  (nodeStep node v.pool e).map fun r =>
    (⟨r.1, (reading i v.pool e).elim v.current (nextCurrent v.current)⟩, r.2)

/-- Another thread is about to attach the stream to the session. -/
def Attaches (i : ℕ) (w : WrappedStream) (p : NodePool) (e : Event) (sid : String) : Prop :=
  ∃ j c f k, e = .thread j c ∧ j ≠ i ∧ p.threads[j]? = some (.atomic f k) ∧
    ¬ Holds w p.state sid ∧ Holds w (f p.state) sid

/-- The thread ends, and leaves the session map alone until then. -/
def Leaving (t : Thread) : Prop :=
  t.Within (fun f => ∀ s, (f s).sessionMap = s.sessionMap) (fun _ => True) (· = none)

/-- What the handler relies on: its frames are about its session, and other threads attach the
stream to no other, and to none once the handler is leaving. -/
def Kept (i : ℕ) (w : WrappedStream) (v : Watch) (e : Event) : Prop :=
  (∀ res, reading i v.pool e = some res → isOwn v.current res) ∧
    ∀ sid, Attaches i w v.pool e sid →
      v.current = some sid ∧ ∀ t, v.pool.threads[i]? = some t → ¬ Leaving t

/-! ## What a handler does -/

variable {node : Node} {w : WrappedStream} {current : Option String} {sid : String}
  {relay : Relay}

omit [Codec] in
theorem Holds.congr {s s' : Shared} (h : s'.sessionMap = s.sessionMap) :
    Holds w s' sid ↔ Holds w s sid := by
  rw [Holds, Holds, h]

omit [Codec] in
theorem Serves.congr {s s' : Shared} (h : s'.sessionMap = s.sessionMap) :
    Serves w current s' ↔ Serves w current s := by
  simp only [Serves, Holds.congr h]

/-- The update keeps the sessions that have the stream to the current one. -/
def Keeps (w : WrappedStream) (current : Option String) (f : Shared → Shared) : Prop :=
  ∀ s, Serves w current s → Serves w current (f s)

omit [Codec] in
theorem keeps_of_same {f : Shared → Shared} (h : ∀ s, (f s).sessionMap = s.sessionMap) :
    Keeps w current f :=
  fun s hs => (Serves.congr (h s)).mpr hs

omit [Codec] in
/-- An update of the entry of the current session. -/
theorem keeps_of_entry {f : Shared → Shared}
    (h : ∀ s x, x ≠ sid → (f s).sessionMap x = s.sessionMap x) : Keeps w (some sid) f := by
  intro s hs x hx
  by_cases hxs : x = sid
  · rw [hxs]
  · rw [Holds, h s x hxs] at hx
    exact hs x hx

omit [Codec] in
theorem serves_remove {s : Shared} (h : Serves w current s) :
    Serves w current
      { s with sessionMap := Function.update s.sessionMap sid none } := by
  intro x hx
  by_cases hxs : x = sid
  · simp [Holds, hxs] at hx
  · simp only [Holds, Function.update_of_ne hxs] at hx
    exact h x hx

omit [Codec] in
theorem serves_remove_current {s : Shared} (h : Serves w (some sid) s) :
    Serves w none
      { s with sessionMap := Function.update s.sessionMap sid none } := by
  intro x hx
  have hsid := serves_remove h x hx
  obtain rfl := Option.some.inj hsid
  simp [Holds] at hx

/-- The session variable after the request is answered. -/
def afterAnswer : (a : Act) → Option String → a.Res → Option String
  | .read _, current, res => nextCurrent current res
  | _, current, _ => current

/-- The answers a handler relies on. -/
def isOwnAnswer : (a : Act) → Option String → a.Res → Bool
  | .read _, current, res => isOwn current res
  | _, _, _ => true

/-- The handler can go on: it keeps the stream to its session, goes around the loop with it, and
does not end before the stream has no session, from where on it leaves. -/
def Safe (w : WrappedStream) : Option String → Thread → Prop
  | current, .ret none => current = none
  | current, .ret (some t) => t = .relayEventHandler w current
  | _, .fail => True
  | current, .atomic f k => ∀ s, Serves w current s →
    Serves w current (f s) ∧ Safe w current (k s) ∨ Serves w none (f s) ∧ Leaving (k s)
  | current, .act a k => ∀ r, isOwnAnswer a current r → Safe w (afterAnswer a current r) (k r)

/-- A part of the handler that reads no frame. -/
theorem Safe.bind {α : Type} {Q : α → Prop} {p : Async α} {g : α → Thread}
    (hp : p.Within (Keeps w current) (fun a => ∀ u, a ≠ .read u) Q)
    (hg : ∀ a, Q a → Safe w current (g a)) : Safe w current (p >>= g) := by
  induction p with
  | ret a => exact hg a hp
  | fail => trivial
  | atomic f k ih => exact fun s hs => Or.inl ⟨hp.1 s hs, ih s (hp.2 s)⟩
  | act a k ih =>
    intro r _
    have hnext : afterAnswer a current r = current := by
      cases a with
      | read u => exact absurd rfl (hp.1 u)
      | _ => rfl
    rw [hnext]
    exact ih r (hp.2 r)

abbrev Keeping (w : WrappedStream) (current : Option String) {α : Type} (p : Async α) : Prop :=
  p.Within (Keeps w current) (fun a => ∀ u, a ≠ .read u) fun _ => True

omit [Codec] [Crypto] in
theorem not_read_of_quiet {a : Act} (ha : a.Quiet) : ∀ u, a ≠ .read u := by
  rintro u rfl
  exact ha

omit [Codec] in
theorem mild_keeping {α : Type} {p : Async α} (hp : Mild p) : Keeping w current p := by
  refine hp.mono (fun f hf => keeps_of_same fun s => (hf s).1) ?_ fun _ h => h
  rintro a (ha | ⟨conn, initiate, sid, rfl⟩)
  · exact not_read_of_quiet ha
  · simp

omit [Codec] in
theorem handleCloseSession_keeping : Keeping w current (Node.handleCloseSession sid) := by
  obtain ⟨k, hk, hrest⟩ := handleCloseSession_eq sid
  rw [hk]
  refine ⟨fun s hs => serves_remove hs, fun s => ?_⟩
  exact (hrest s).mono (fun f hf => keeps_of_same hf) (fun a ha => not_read_of_quiet ha) fun _ h => h

omit [Codec] in
theorem sendRelayTwoway_keeping {session : Session} :
    Keeping w current (sendRelayTwoway session relay) := by
  obtain ⟨id, ⟨early, later⟩, role⟩ := session
  cases early <;> cases later
  · trivial
  · exact ⟨by simp, fun _ => trivial⟩
  · exact ⟨by simp, fun _ => trivial⟩
  · exact ⟨by simp, fun _ => ⟨by simp, fun _ => trivial⟩⟩

theorem handleRelayProbe_keeping {stream : WrappedStream} :
    Keeping w current (handleRelayProbe sid stream relay) := by
  have hlook : Keeps w current id := fun _ h => h
  unfold handleRelayProbe
  cases (Codec.decode relay.data : Option ProbeSignal) with
  | none => trivial
  | some probe =>
    simp only [Prog.unwrap_some, Prog.ret_bind, Async.getSession, Prog.read_bind]
    refine ⟨hlook, fun s => ?_⟩
    beta_reduce
    cases s.sessionMap sid with
    | none => trivial
    | some session =>
      dsimp only
      split
      · simp only [Async.getProbe, Prog.read_bind]
        refine ⟨hlook, fun s => ?_⟩
        beta_reduce
        split
        · refine ⟨hlook, fun s => ?_⟩
          beta_reduce
          cases s.probeMap sid with
          | none => trivial
          | some existProbe =>
            simp only [Prog.unwrap_some, Prog.ret_bind]
            split
            · exact sendRelayTwoway_keeping
            · exact handleCloseSession_keeping
        · exact ⟨keeps_of_same fun _ => rfl, fun _ => trivial⟩
      · split
        · exact mild_keeping forwardRelay_mild
        · trivial

theorem handleSetSession_keeping {msg : SetSessionIdMsg} {stream : WrappedStream}
    {relayId : String} :
    Keeping w (some msg.sessionId) (handleSetSession msg stream relayId) := by
  have hlook : Keeps w (some msg.sessionId) id := fun _ h => h
  have hput {entry : Option Session} : Keeps w (some msg.sessionId) fun s =>
      { s with sessionMap := Function.update s.sessionMap msg.sessionId entry } :=
    keeps_of_entry fun s x hx => Function.update_of_ne hx ..
  have hack : Keeping w (some msg.sessionId)
      (Node.sendAck stream.remotePeerId ⟨relayId, true, []⟩) := ⟨by simp, fun _ => trivial⟩
  simp only [handleSetSession, Async.getSession, Prog.read_bind]
  refine ⟨hlook, fun s => ?_⟩
  beta_reduce
  cases s.sessionMap msg.sessionId with
  | none => exact ⟨hput, fun _ => hack⟩
  | some session =>
    dsimp only
    split
    · split
      · refine ⟨hput, fun _ => ?_⟩
        cases session.pairStream.laterStream with
        | none => trivial
        | some later =>
          simp only [Prog.unwrap_some, Prog.ret_bind, writeDisconnectArc, bind_assoc]
          exact ⟨by simp, fun _ => ⟨by simp, fun _ => ⟨by simp, fun _ => hack⟩⟩⟩
      · exact handleCloseSession_keeping
    · refine ⟨keeps_of_entry fun s x hx => ?_, fun s => ?_⟩
      · unfold Shared.joinSession
        split
        · rfl
        · exact Function.update_of_ne hx ..
      · beta_reduce
        cases s.sessionMap msg.sessionId with
        | none => trivial
        | some session => exact hack

omit [Codec] in
theorem addCircuitConn_keeping {stream : WrappedStream} :
    Keeping w current (addCircuitConn sid stream) := by
  refine ⟨keeps_of_same fun s => ?_, fun _ => trivial⟩
  split <;> rfl

/-- Closing the session of the stream ends the service, whatever comes after it. -/
theorem close_safe (h : current.all (· = sid)) :
    Safe w current (Node.handleCloseSession sid >>= fun _ => .ret none) := by
  cases current with
  | none => exact Safe.bind handleCloseSession_keeping fun _ _ => rfl
  | some x =>
    obtain rfl : x = sid := by simpa using h
    obtain ⟨k, hk, hrest⟩ := handleCloseSession_eq x
    rw [hk]
    intro s hs
    refine Or.inr ⟨serves_remove_current hs, Prog.Within.bind ?_⟩
    exact (hrest s).mono (fun _ h => h) (fun _ _ => trivial) fun _ _ => rfl

/-- After a read error: the current session is closed if it has the stream. -/
theorem relayStreamError_safe :
    Safe w current (relayStreamError w current >>= fun _ => .ret none) := by
  cases current with
  | none => exact rfl
  | some sid =>
    simp only [relayStreamError, Async.getSession, Prog.read_bind, Prog.atomic_bind]
    intro s hs
    beta_reduce
    by_cases hw : (s.sessionMap sid).any (·.pairStream.has w.streamId)
    · left
      rw [if_pos hw]
      exact ⟨hs, close_safe (by simp)⟩
    · right
      rw [if_neg hw]
      refine ⟨fun x hx => ?_, rfl⟩
      obtain rfl := Option.some.inj (hs x hx)
      exact absurd hx hw

/-- A frame that goes around the loop. -/
theorem loop_safe {p : Async Unit} (hp : Keeping w current p) :
    Safe w current ((do
      p
      return some current : Async (Option (Option String))) >>= fun next =>
        match next with
        | none => return none
        | some sessionId => return some (.relayEventHandler w sessionId)) := by
  rw [bind_assoc]
  exact Safe.bind hp fun _ _ => rfl

theorem relayEventHandler_safe : Safe w current (relayEventHandler w current) := by
  rw [relayEventHandler_eq]
  intro res hown
  cases res with
  | error e => exact relayStreamError_safe
  | ok msg =>
    simp only [isOwnAnswer, isOwn] at hown
    simp only [afterAnswer, nextCurrent]
    cases hdec : (Codec.decode msg : Option Relay) with
    | none => trivial
    | some relay =>
      simp only [hdec] at hown
      simp only [Prog.unwrap_some, Prog.ret_bind]
      by_cases hset : relay.type = Relaytype.setSessionId.toI32
      · rw [relayEvent_setSessionId hset]
        rw [if_pos hset] at hown
        simp only [if_pos hset]
        cases hmsg : (Codec.decode relay.data : Option SetSessionIdMsg) with
        | none => trivial
        | some m =>
          rw [hmsg, Option.all_some] at hown
          -- from the frame on, the session it names is the current one
          have hcur : current.getD m.sessionId = m.sessionId := by
            cases current with
            | none => rfl
            | some x => simpa using hown
          simp only [Prog.unwrap_some, Prog.ret_bind, hcur]
          split
          · rw [bind_assoc]
            exact Safe.bind addCircuitConn_keeping fun _ _ => loop_safe handleSetSession_keeping
          · exact loop_safe handleSetSession_keeping
      · rw [if_neg hset] at hown
        simp only [if_neg hset]
        by_cases hdisc : relay.type = Relaytype.disconnect.toI32
        · rw [if_pos hdisc] at hown
          rw [relayEvent_disconnect hdisc]
          cases hmsg : (Codec.decode relay.data : Option Disconnect) with
          | none =>
            rw [hmsg] at hown
            cases current with
            | none => exact rfl
            | some x => cases hown
          | some m =>
            rw [hmsg] at hown
            simp only [bind_assoc, Prog.pure_eq, Prog.ret_bind]
            refine close_safe ?_
            cases current with
            | none => rfl
            | some x => simpa [eq_comm] using hown
        by_cases hprobe : relay.type = Relaytype.probe.toI32
        · rw [relayEvent_probe hprobe]
          cases current with
          | none => trivial
          | some x => exact loop_safe handleRelayProbe_keeping
        by_cases hsuccess : relay.type = Relaytype.success.toI32
        · rw [relayEvent_success hsuccess]
          exact loop_safe (mild_keeping handleSuccess_mild)
        by_cases hdata : relay.type = Relaytype.data.toI32
        · rw [relayEvent_data hdata]
          exact loop_safe (mild_keeping handleRelayMsg_mild)
        have hret : relayEvent w current relay = return some current := by
          simp [relayEvent, hprobe, hdisc, hset, hsuccess, hdata]
        rw [hret]
        exact rfl

/-- A frame that is read changes the session variable only from `none`. -/
theorem serves_next {s : Shared} (a : Act) (r : a.Res) (h : Serves w current s) :
    Serves w (afterAnswer a current r) s := by
  cases current with
  | none =>
    intro sid hsid
    cases h sid hsid
  | some x =>
    have hsame : afterAnswer a (some x) r = some x := by
      cases a with
      | read u =>
        simp only [afterAnswer, nextCurrent, Option.getD_some]
        split
        · rfl
        · split
          · rfl
          · split
            · split <;> rfl
            · rfl
      | _ => rfl
    rwa [hsame]

/-! ## Runs -/

/-- The handler serves the stream, or it leaves and no session has the stream. -/
inductive Phase (i : ℕ) (w : WrappedStream) (v : Watch) (t : Thread) : Prop
  | serving (hs : Serves w v.current v.pool.state) (ht : Safe w v.current t)
  | leaving (hs : Serves w none v.pool.state) (ht : Leaving t)

variable {i : ℕ} {v v' : Watch} {t : Thread} {e : Event} {os : List Output}

theorem step_eq_some (h : step node i v e = some (v', os)) :
    nodeStep node v.pool e = some (v'.pool, os) ∧
      v'.current = (reading i v.pool e).elim v.current (nextCurrent v.current) := by
  obtain ⟨⟨p, o⟩, hr, heq⟩ := Option.map_eq_some_iff.mp h
  obtain ⟨rfl, rfl⟩ := Prod.mk.inj heq
  exact ⟨hr, rfl⟩

/-- The handler takes a turn. -/
theorem Phase.turn {c : Choice} (h : Phase i w v t) (ht : v.pool.threads[i]? = some t)
    (hkept : Kept i w v (.thread i c)) (hs : step node i v (.thread i c) = some (v', os)) :
    ∃ t', v'.pool.threads[i]? = some t' ∧ Phase i w v' t' := by
  obtain ⟨hstep, hcur⟩ := step_eq_some hs
  obtain ⟨u, r, hu, hr, hst, hthreads, -⟩ := (nodeSemantics node).step_eq_some hstep
  obtain rfl := Option.some.inj (ht.symm.trans hu)
  refine ⟨r.answer, ?_, ?_⟩
  · have hlt : i < v.pool.threads.length := (List.getElem?_eq_some_iff.mp ht).1
    rw [hthreads, List.getElem?_append_left (by simpa using hlt), List.getElem?_set_self hlt]
  cases t with
  | ret a =>
    cases a with
    | none => cases hr
    | some task =>
      cases hr
      simp only [reading, ht, if_true, Option.elim_none] at hcur
      cases h with
      | serving hs hsafe =>
        obtain rfl : task = .relayEventHandler w v.current := hsafe
        refine .serving ?_ ?_
        · rwa [hst, hcur]
        · rw [hcur]
          exact relayEventHandler_safe
      | leaving hs hl => cases hl
  | fail => cases hr
  | atomic f k =>
    cases hr
    simp only [reading, ht, if_true, Option.elim_none] at hcur
    cases h with
    | serving hs hsafe =>
      rcases hsafe _ hs with ⟨hs', hsafe'⟩ | ⟨hs', hl⟩
      · exact .serving (by rwa [hst, hcur]) (by rwa [hcur])
      · exact .leaving (by rwa [hst]) hl
    | leaving hs hl => exact .leaving (by rwa [hst, Serves.congr (hl.1 _)]) (hl.2 _)
  | act a k =>
    obtain ⟨x, hx, rfl⟩ := Semantics.advance_act hr
    have hmap := (reply_sameMaps hx).sessionMap
    cases h with
    | serving hs hsafe =>
      have hread : isOwnAnswer a v.current x.answer ∧
          v'.current = afterAnswer a v.current x.answer := by
        rcases a.plain_or with hplain | ⟨task, rfl⟩ | ⟨u, rfl⟩
        · cases a with
          | spawn | read => exact hplain.elim
          | _ =>
            simp only [reading, ht, if_true, Option.elim_none] at hcur
            exact ⟨rfl, hcur⟩
        · simp only [reading, ht, if_true, Option.elim_none] at hcur
          exact ⟨rfl, hcur⟩
        · obtain ⟨res, rest, hw, rfl⟩ := Shared.dequeue_eq_some hx
          have hres : reading i v.pool (.thread i c) = some res := by simp [reading, ht, hw]
          rw [hres] at hcur
          exact ⟨hkept.1 res hres, hcur⟩
      refine .serving ?_ ?_
      · rw [hst, Serves.congr hmap, hread.2]
        exact serves_next a _ hs
      · rw [hread.2]
        exact hsafe _ hread.1
    | leaving hs hl => exact .leaving (by rwa [hst, Serves.congr hmap]) (hl.2 _)

/-- Another thread takes a turn. -/
theorem Phase.other {j : ℕ} {c : Choice} (h : Phase i w v t) (ht : v.pool.threads[i]? = some t)
    (hj : j ≠ i) (hkept : Kept i w v (.thread j c))
    (hs : step node i v (.thread j c) = some (v', os)) :
    v'.pool.threads[i]? = some t ∧ Phase i w v' t := by
  obtain ⟨hstep, hcur⟩ := step_eq_some hs
  simp only [reading, if_neg hj, Option.elim_none] at hcur
  obtain ⟨u, r, hu, hr, hst, hthreads, -⟩ := (nodeSemantics node).step_eq_some hstep
  constructor
  · have hlt : i < v.pool.threads.length := (List.getElem?_eq_some_iff.mp ht).1
    rw [hthreads, List.getElem?_append_left (by simpa using hlt), List.getElem?_set_ne hj, ht]
  -- a session that has the stream now had it before, or the thread attaches it
  have hnow (sid : String) (hsid : Holds w v'.pool.state sid) :
      Holds w v.pool.state sid ∨ v.current = some sid ∧ ¬ Leaving t := by
    by_cases hold : Holds w v.pool.state sid
    · exact Or.inl hold
    right
    cases u with
    | ret a =>
      cases a with
      | none => cases hr
      | some task =>
        cases hr
        rw [hst] at hsid
        exact absurd hsid hold
    | fail => cases hr
    | atomic f k =>
      cases hr
      rw [hst] at hsid
      obtain ⟨hc, hl⟩ := hkept.2 sid ⟨j, c, f, k, rfl, hj, hu, hold, hsid⟩
      exact ⟨hc, hl t ht⟩
    | act a k =>
      obtain ⟨x, hx, rfl⟩ := Semantics.advance_act hr
      rw [hst, Holds.congr (reply_sameMaps hx).sessionMap] at hsid
      exact absurd hsid hold
  cases h with
  | serving hs hsafe =>
    refine .serving (fun sid hsid => ?_) (by rwa [hcur])
    rw [hcur]
    rcases hnow sid hsid with hold | ⟨hc, -⟩
    · exact hs sid hold
    · exact hc
  | leaving hs hl =>
    refine .leaving (fun sid hsid => ?_) hl
    rcases hnow sid hsid with hold | ⟨-, hnot⟩
    · exact hs sid hold
    · exact absurd hl hnot

theorem Phase.step (h : Phase i w v t) (ht : v.pool.threads[i]? = some t) (hkept : Kept i w v e)
    (hs : step node i v e = some (v', os)) :
    ∃ t', v'.pool.threads[i]? = some t' ∧ Phase i w v' t' := by
  by_cases he : ∃ j c, e = .thread j c
  · obtain ⟨j, c, rfl⟩ := he
    by_cases hj : j = i
    · subst hj
      exact h.turn ht hkept hs
    · exact ⟨t, h.other ht hj hkept hs⟩
  · obtain ⟨hstep, hcur⟩ := step_eq_some hs
    obtain ⟨hsess, -, -, ts, hts⟩ := nodeStep_arrival (fun j c heq => he ⟨j, c, heq⟩) hstep
    have hread : reading i v.pool e = none := by
      cases e with
      | thread j c => exact absurd ⟨j, c, rfl⟩ he
      | _ => rfl
    rw [hread, Option.elim_none] at hcur
    have hlt : i < v.pool.threads.length := (List.getElem?_eq_some_iff.mp ht).1
    refine ⟨t, by rw [hts, List.getElem?_append_left hlt, ht], ?_⟩
    cases h with
    | serving hs hsafe => exact .serving (by rwa [Serves.congr hsess, hcur]) (by rwa [hcur])
    | leaving hs hl => exact .leaving (by rwa [Serves.congr hsess]) hl

end Generic

/-- While its frames and the other threads keep the stream to its session, a handler that has
returned leaves no session with the stream. -/
theorem stream_serviced [Codec] [Crypto] (node : Node) {i : ℕ} {w : WrappedStream} {v v' : Watch}
    {es : List Event} {os : List Output}
    (ht : v.pool.threads[i]? = some (Task.body node (.relayEventHandler w v.current)))
    (h₀ : Serves w v.current v.pool.state) (hC : Meets (Kept i w) (step node i) v es)
    (h : run (step node i) v es = some (v', os))
    (hret : v'.pool.threads[i]? = some (.ret none)) {sid : String} {session : Session}
    (hs : v'.pool.state.sessionMap sid = some session) :
    session.pairStream.has w.streamId = false := by
  obtain ⟨t, ht', hphase⟩ := run_induction_meets
    (P := fun _ v _ => ∃ t, v.pool.threads[i]? = some t ∧ Phase i w v t)
    ⟨_, ht, .serving h₀ relayEventHandler_safe⟩
    (fun _ _ _ _ _ _ ⟨_, ht, hphase⟩ hkept hstep => hphase.step ht hkept hstep) hC h
  obtain rfl := Option.some.inj (hret.symm.trans ht')
  have hnone : Serves w none v'.pool.state := by
    cases hphase with
    | serving hs hsafe => rwa [show v'.current = none from hsafe] at hs
    | leaving hs hl => exact hs
  by_contra hhas
  have hholds : Holds w v'.pool.state sid := by simpa [Holds, hs] using hhas
  cases hnone sid hholds

/-! ## A handler that joins two sessions -/

namespace Sample

def relayNode : Node := ⟨(⟨.ed25519, List.replicate 32 7⟩ : Ideal.Keypair), none, none⟩

def stream : WrappedStream := ⟨⟨"peer"⟩, 0⟩

def accepted : Watch := ⟨⟨{}, [Task.body relayNode (.relayEventHandler stream none)]⟩, none⟩

/-- The stream joins the session as one of a relay. -/
def join (sid : String) : Event :=
  .frame 0 (.ok (Codec.encode (newRelaySetSession sid SessionRole.relayRole.toI32)))

def broken : Event := .frame 0 (.error (.io "closed"))

def turns (n : ℕ) : List Event := List.replicate n (.thread 0 .go)

def joinOnce : List Event := join "session" :: broken :: turns 11

def joinTwice : List Event := join "session" :: join "other" :: broken :: turns 16

end Sample

theorem stream_serviced_once : ∃ v os,
    run (step Sample.relayNode 0) Sample.accepted Sample.joinOnce = some (v, os) ∧
      v.pool.threads[0]? = some (.ret none) ∧
      ∀ sid session, v.pool.state.sessionMap sid = some session →
        session.pairStream.has 0 = false := by
  obtain ⟨v, os, hr, hv⟩ := exists_run (step Sample.relayNode 0) Sample.accepted Sample.joinOnce
    (fun r => (r.1.pool.threads[0]?).any Prog.isDone) (by decide +kernel)
  have hret : v.pool.threads[0]? = some (.ret none) := by
    obtain ⟨t, ht, hdone⟩ := (Option.any_eq_true ..).mp hv
    rwa [Prog.isDone_iff.mp hdone] at ht
  have hown : Meets (fun v e => (reading 0 v.pool e).all (isOwn v.current) = true)
      (step Sample.relayNode 0) Sample.accepted Sample.joinOnce :=
    Meets.of_meets (by decide +kernel)
  have hkept : Meets (Kept 0 Sample.stream) (step Sample.relayNode 0) Sample.accepted
      Sample.joinOnce := by
    intro pre e post v os hes hrun
    constructor
    · intro res hres
      simpa [hres] using hown pre e post v os hes hrun
    · rintro sid ⟨j, c, f, k, rfl, hj, -⟩
      have hmem : Event.thread j c ∈ Sample.joinOnce := by simp [hes]
      simp [Sample.joinOnce, Sample.join, Sample.broken, Sample.turns, hj] at hmem
  refine ⟨v, os, hr, hret, fun sid session hs => ?_⟩
  have hnone : Serves Sample.stream none Sample.accepted.pool.state := fun _ h => nomatch h
  exact stream_serviced Sample.relayNode rfl hnone hkept hr hret hs

/-- The second session keeps the stream when its handler has returned. -/
theorem not_serviced_twice : ∃ v os session,
    run (step Sample.relayNode 0) Sample.accepted Sample.joinTwice = some (v, os) ∧
      v.pool.threads[0]? = some (.ret none) ∧
      v.pool.state.sessionMap "other" = some session ∧ session.pairStream.has 0 := by
  obtain ⟨v, os, hr, hv⟩ := exists_run (step Sample.relayNode 0) Sample.accepted Sample.joinTwice
    (fun r => (r.1.pool.threads[0]?).any Prog.isDone &&
      (r.1.pool.state.sessionMap "other").any (·.pairStream.has 0)) (by decide +kernel)
  obtain ⟨hdone, hhas⟩ := Bool.and_eq_true_iff.mp hv
  obtain ⟨t, ht, hdone⟩ := (Option.any_eq_true ..).mp hdone
  obtain ⟨session, hs, hhas⟩ := (Option.any_eq_true ..).mp hhas
  rw [Prog.isDone_iff.mp hdone] at ht
  exact ⟨v, os, session, hr, ht, hs, hhas⟩

end WhiteNoise.Service
