import WhiteNoise.Network.Ideal
import WhiteNoise.Process.Refinement
import WhiteNoise.Swarm.Machine

/-! # The machine refines the running node

A running node takes its streams and the answers of its event loop from an open
environment. The machine below its tasks is such an environment: each stream
has an identifier of its own and reaches one task, so all that the machine does
is a run of the node.
-/

namespace WhiteNoise.Swarm

open Wire Process OutStreams

section Generic

variable [Codec] [Crypto] {X : Type}

/-- The stream that an event of the relay behaviour carries. -/
def RelayEvent.stream : RelayEvent → Option WrappedStream
  | relayInbound x => some x
  | relayOutbound x => some x
  | disconnect _ => none

/-- The streams that are with the call. -/
def StreamCall.held (c : StreamCall) : List WrappedStream :=
  if c.resumed then [] else c.call.point.held

/-- A call holds what it should, and it has returned before its thread goes on. -/
structure StreamCall.Proper (c : StreamCall) : Prop where
  right : Point.Right c.call.peerId c.call.point
  returned : c.resumed → ∃ r, c.call.point = .returned r

/-- What the tasks put out. -/
def Out.output : Out X → Option Output
  | node o => some o
  | _ => none

namespace Machine

/-- The streams that no task has yet. -/
def held (m : Machine X) : List WrappedStream :=
  m.behaviour.relayInStreams ++ m.behaviour.relayBehaviour.waiting.filterMap RelayEvent.stream ++
    m.behaviour.relayOutStreams ++ m.calls.flatMap StreamCall.held

/-- The identifiers of all streams, those of the tasks first. -/
def ids (m : Machine X) : List ℕ :=
  m.pool.state.streams ++ m.held.map WrappedStream.streamId

/-- Each identifier that has been drawn is in one place, the calls are proper, and the threads stay
within their footprint. -/
structure Sound (m : Machine X) : Prop where
  unique : ∀ n, m.ids.count n ≤ if n ∈ m.drawn then 1 else 0
  proper : ∀ c ∈ m.calls, c.Proper
  bounded : Acks.Bounded m.pool

variable {node : Node} {m m' : Machine X} {o : List (Out X)}

omit [Codec] in
theorem ids_count (n : ℕ) : m.ids.count n = m.pool.state.streams.count n +
    ((m.behaviour.relayInStreams.map WrappedStream.streamId).count n +
      ((m.behaviour.relayBehaviour.waiting.filterMap RelayEvent.stream).map
        WrappedStream.streamId).count n +
      (m.behaviour.relayOutStreams.map WrappedStream.streamId).count n +
      ((m.calls.flatMap StreamCall.held).map WrappedStream.streamId).count n) := by
  simp only [ids, held, List.map_append, List.count_append]

/-- A machine with the same streams or fewer of them is as sound. -/
theorem Sound.of_ids (h : m.Sound) (hids : ∀ n, m'.ids.count n ≤ m.ids.count n)
    (hdrawn : m'.drawn = m.drawn) (hcalls : m'.calls = m.calls) (hpool : Acks.Bounded m'.pool) :
    m'.Sound where
  unique n := hdrawn ▸ (hids n).trans (h.unique n)
  proper := hcalls ▸ h.proper
  bounded := hpool

/-- An identifier that is with the machine is not with a task. -/
theorem Sound.fresh (h : m.Sound) {w : WrappedStream} (hw : w ∈ m.held) :
    w.streamId ∉ m.pool.state.streams := by
  intro hmem
  have hunique := h.unique w.streamId
  have hcount : 0 < m.pool.state.streams.count w.streamId := List.count_pos_iff.mpr hmem
  have hheld : 0 < (m.held.map WrappedStream.streamId).count w.streamId :=
    List.count_pos_iff.mpr (List.mem_map_of_mem hw)
  rw [ids, List.count_append] at hunique
  split at hunique <;> omega

/-! ## Tasks -/

omit [Codec] in
/-- Only a new stream adds to the identifiers of the tasks. -/
theorem reply_streams {a : Act} {c : Choice} {s : Shared} {x : Reply Shared Task Output a.Res}
    (h : Shared.reply a c s = some x) :
    x.state.streams = s.streams ∨ (∃ w, c = .stream w) ∧ ∃ p, a = .newRelayStream p := by
  unfold Shared.reply at h
  split at h
  all_goals first
    | exact Or.inr ⟨⟨_, rfl⟩, _, rfl⟩
    | (obtain ⟨_, _, -, rfl⟩ := Shared.dequeue_eq_some h
       exact Or.inl rfl)
    | (cases h <;> exact Or.inl rfl)
    | (split at h <;> cases h <;> exact Or.inl rfl)

theorem apply_streams (u : Update) (s : Shared) : (u.apply s).streams = s.streams := by
  cases u with
  | addCircuit | data =>
    simp only [Update.apply]
    split <;> rfl
  | _ => rfl

/-- An operation of a thread that opens no stream. -/
theorem step_streams {i : ℕ} {c : Choice} {t : Thread} {p p' : NodePool} {os : List Output}
    (hp : Acks.Bounded p) (ht : p.threads[i]? = some t)
    (hopen : (∀ w, c ≠ .stream w) ∨ waits t = false)
    (h : (nodeSemantics node).step p i c = some (p', os)) :
    p'.state.streams = p.state.streams := by
  obtain ⟨u, r, hu, hr, hs, -, -⟩ := Semantics.step_eq_some _ h
  obtain rfl : t = u := Option.some.inj (ht.symm.trans hu)
  rw [hs]
  cases t with
  | ret a =>
    cases a with
    | none => cases hr
    | some task =>
      cases hr
      rfl
  | fail => cases hr
  | atomic f k =>
    cases hr
    obtain ⟨⟨update, rfl⟩, -⟩ := hp _ (List.mem_of_getElem? ht)
    exact apply_streams update _
  | act a k =>
    obtain ⟨x, hx, rfl⟩ := Semantics.advance_act hr
    rcases reply_streams hx with hsame | ⟨⟨w, rfl⟩, peer, rfl⟩
    · exact hsame
    · rcases hopen with hne | hwaits
      · exact absurd rfl (hne w)
      · cases hwaits

theorem step_bounded {i : ℕ} {c : Choice} {p p' : NodePool} {os : List Output}
    (hp : Acks.Bounded p) (h : (nodeSemantics node).step p i c = some (p', os)) :
    Acks.Bounded p' :=
  (Acks.nodeStep_bus (e := .thread i c) hp h).1

omit [Codec] [Crypto] in
theorem output_map_node (os : List Output) :
    (os.map (Out.node : Output → Out X)).filterMap Out.output = os := by
  rw [List.filterMap_map]
  exact List.filterMap_some

/-! ## One step -/

/-- The event is neither the turn of a thread nor a call of the application. -/
def Arrives : WhiteNoise.Event → Prop
  | .thread _ _ | .call _ => False
  | _ => True

/-- The operation of a thread that an event stands for, with the choice that resolves it, or the call
of the application. -/
def operation (m : Machine X) : Event X → Option WhiteNoise.Event
  | .thread i c => some (.thread i c)
  | .answered j =>
    match m.questions[j]? with
    | none => none
    | some q => (m.settled q).map fun a => .thread q.thread a.choice
  | .resume j =>
    match m.calls[j]? with
    | some ⟨i, ⟨_, .returned relayStream⟩, false⟩ => some (.thread i (.stream relayStream))
    | _ => none
  | .call t => some (.call t)
  | _ => none

omit [Codec] in
theorem operation_call {e : Event X} {t : Task} (h : m.operation e = some (.call t)) : e = .call t := by
  cases e with
  | call => cases h; rfl
  | answered j =>
    simp only [operation] at h
    split at h
    · cases h
    · obtain ⟨_, -, ⟨⟩⟩ := Option.map_eq_some_iff.mp h
  | resume j =>
    simp only [operation] at h
    split at h <;> cases h
  | _ => cases h

/-- A step of the machine is answered by one event of the node or by none, and the machine stays
sound. -/
def Answered (node : Node) (m : Machine X) (op : Option WhiteNoise.Event) (m' : Machine X)
    (o : List (Out X)) : Prop :=
  ((m'.pool = m.pool ∧ o.filterMap Out.output = []) ∨
    ∃ e, nodeStep node m.pool e = some (m'.pool, o.filterMap Out.output) ∧
      (Arrives e ∨ op = some e)) ∧ m'.Sound

variable {op : Option WhiteNoise.Event}

/-- The node does nothing. -/
theorem Answered.idle (hpool : m'.pool = m.pool) (ho : o.filterMap Out.output = [])
    (hm' : m'.Sound) : Answered node m op m' o :=
  ⟨Or.inl ⟨hpool, ho⟩, hm'⟩

/-- The node does one thing. -/
theorem Answered.single {e : WhiteNoise.Event}
    (h : nodeStep node m.pool e = some (m'.pool, o.filterMap Out.output))
    (hop : op = some e) (hm' : m'.Sound) :
    Answered node m op m' o :=
  ⟨Or.inr ⟨e, h, Or.inr hop⟩, hm'⟩

/-- Something arrives at the node. -/
theorem Answered.arrival {e : WhiteNoise.Event} (he : Arrives e)
    (h : nodeStep node m.pool e = some (m'.pool, o.filterMap Out.output)) (hm' : m'.Sound) :
    Answered node m op m' o :=
  ⟨Or.inr ⟨e, h, Or.inl he⟩, hm'⟩

theorem Answered.steps (h : Answered node m op m' o) :
    Steps (nodeStep node) m.pool (o.filterMap Out.output) m'.pool := by
  obtain ⟨⟨hpool, ho⟩ | ⟨e, he, -⟩, -⟩ := h
  · rw [hpool, ho]
    exact .refl
  · exact .single he

theorem thread_answered (hm : m.Sound) {i : ℕ} {c : Choice}
    (h : m.thread node i c = some (m', o)) : Answered node m (some (.thread i c)) m' o := by
  unfold thread at h
  split at h
  · cases h
  · next t ht =>
    split at h
    · cases h
    · next hguard =>
      split at h
      · cases h
      · next pool os hs =>
        cases h
        apply Answered.single (e := .thread i c)
        · rw [output_map_node]
          exact hs
        · rfl
        · have hwaits : waits t = false := by
            simp only [not_or, Bool.not_eq_true] at hguard
            exact hguard.1
          refine hm.of_ids (fun n => ?_) rfl rfl (step_bounded hm.bounded hs)
          rw [ids_count, ids_count, step_streams hm.bounded ht (Or.inr hwaits) hs]

theorem ask_answered (hm : m.Sound) {i : ℕ} (h : m.ask i = some (m', o)) :
    Answered node m none m' o := by
  unfold ask at h
  split at h
  · cases h
  · split at h
    · cases h
      exact .idle rfl rfl (hm.of_ids (fun _ => le_rfl) rfl rfl hm.bounded)
    · cases h
      exact .idle rfl rfl (hm.of_ids (fun _ => le_rfl) rfl rfl hm.bounded)
    · cases h

theorem answered_answered (hm : m.Sound) {j : ℕ} (h : m.answered node j = some (m', o)) :
    Answered node m (m.operation (.answered j : Event X)) m' o := by
  obtain ⟨q, a, t, pool, os, hq, ha, ht, -, hs, rfl, rfl⟩ := answered_cases h
  apply Answered.single (e := .thread q.thread a.choice)
  · rw [output_map_node]
    exact hs
  · simp only [operation, hq, ha, Option.map_some]
  · have hopen : ∀ w, a.choice ≠ .stream w := by
      intro w
      cases a <;> simp [Answer.choice]
    refine hm.of_ids (fun n => ?_) rfl rfl (step_bounded hm.bounded hs)
    rw [ids_count, ids_count, step_streams hm.bounded ht (Or.inl hopen) hs]

omit [Codec] [Crypto] in
/-- What a call gives up when its thread goes on. -/
theorem held_set_count {calls : List StreamCall} {j : ℕ} {c : StreamCall} (c' : StreamCall) (n : ℕ)
    (hj : calls[j]? = some c) :
    (((calls.set j c').flatMap StreamCall.held).map WrappedStream.streamId).count n +
        (c.held.map WrappedStream.streamId).count n =
      ((calls.flatMap StreamCall.held).map WrappedStream.streamId).count n +
        (c'.held.map WrappedStream.streamId).count n := by
  have hperm := (flatMap_set_perm (f := StreamCall.held) (b := c') hj).map WrappedStream.streamId
  have hcount := hperm.count_eq n
  simp only [List.map_append, List.count_append] at hcount
  omega

theorem step_opened (node : Node) {p : NodePool} {i : ℕ} {w : WrappedStream}
    {k : Act.Res (.newRelayStream w.remotePeerId) → Thread}
    (ht : p.threads[i]? = some (.act (.newRelayStream w.remotePeerId) k))
    (hw : w.streamId ∉ p.state.streams) :
    (nodeSemantics node).step p i (.stream (some w)) =
      some (⟨{ p.state with streams := w.streamId :: p.state.streams },
        p.threads.set i (k (some w))⟩, [.opened w]) := by
  have hreply : Shared.reply (.newRelayStream w.remotePeerId) (.stream (some w)) p.state =
      some ⟨some w, { p.state with streams := w.streamId :: p.state.streams }, [.opened w], []⟩ :=
    if_pos ⟨rfl, hw⟩
  simp only [Semantics.step, ht, Semantics.advance, nodeSemantics, hreply, List.map_nil,
    List.append_nil]

theorem step_not_opened (node : Node) {p : NodePool} {i : ℕ} {peer : PeerId}
    {k : Act.Res (.newRelayStream peer) → Thread}
    (ht : p.threads[i]? = some (.act (.newRelayStream peer) k)) :
    (nodeSemantics node).step p i (.stream none) =
      some (⟨p.state, p.threads.set i (k none)⟩, []) := by
  have hreply : Shared.reply (.newRelayStream peer) (.stream none) p.state =
      some ⟨none, p.state, [], []⟩ := rfl
  simp only [Semantics.step, ht, Semantics.advance, nodeSemantics, hreply, List.map_nil,
    List.append_nil]

omit [Codec] [Crypto] in
theorem proper_set {calls : List StreamCall} {j : ℕ} {c' : StreamCall}
    (h : ∀ c ∈ calls, c.Proper) (hc' : c'.Proper) : ∀ c ∈ calls.set j c', c.Proper := by
  intro c hc
  rcases List.mem_or_eq_of_mem_set hc with hc | rfl
  · exact h c hc
  · exact hc'

omit [Codec] [Crypto] in
@[simp] theorem held_resumed (i : ℕ) (c : Call) : StreamCall.held ⟨i, c, true⟩ = [] := rfl

omit [Codec] [Crypto] in
@[simp] theorem held_returned (i : ℕ) (p : PeerId) (r : Option WrappedStream) :
    StreamCall.held ⟨i, ⟨p, .returned r⟩, false⟩ = r.toList := rfl

theorem resume_answered (hm : m.Sound) {j : ℕ} (h : m.resume j = some (m', o)) :
    Answered node m (m.operation (.resume j : Event X)) m' o := by
  unfold resume at h
  split at h
  · next i p relayStream hj =>
    have hright := (hm.proper _ (List.mem_of_getElem? hj)).right
    have hcount n := held_set_count ⟨i, ⟨p, .returned relayStream⟩, true⟩ n hj
    simp only [held_resumed, held_returned] at hcount
    split at h
    · next p' k ht =>
      split at h
      · next hp =>
        subst hp
        cases relayStream with
        | none =>
          cases h
          have hs := step_not_opened node ht
          apply Answered.single (e := .thread i (.stream none))
          · exact hs
          · simp only [operation, hj]
          · constructor
            · intro n
              have hn := hcount n
              simp only [Option.toList_none, List.map_nil, List.count_nil, Nat.add_zero] at hn
              have hunique := hm.unique n
              rw [ids_count] at hunique ⊢
              dsimp only
              rwa [hn]
            · exact proper_set hm.proper ⟨hright, fun _ => ⟨_, rfl⟩⟩
            · exact step_bounded hm.bounded hs
        | some w =>
          cases h
          obtain rfl : w.remotePeerId = p' := hright.result w rfl
          have hheld : w ∈ m.held := by
            apply List.mem_append_right
            exact List.mem_flatMap.mpr ⟨_, List.mem_of_getElem? hj, by simp⟩
          have hs := step_opened node ht (hm.fresh hheld)
          apply Answered.single (e := .thread i (.stream (some w)))
          · exact hs
          · simp only [operation, hj]
          · constructor
            · intro n
              have hn := hcount n
              have hunique := hm.unique n
              rw [ids_count] at hunique ⊢
              simp only [Option.toList_some, List.map_cons, List.map_nil, List.count_cons,
                List.count_nil] at hn ⊢
              omega
            · exact proper_set hm.proper ⟨hright, fun _ => ⟨_, rfl⟩⟩
            · exact step_bounded hm.bounded hs
      · cases h
    · cases h
  · cases h

theorem accept_answered (hm : m.Sound) (h : m.accept node = some (m', o)) :
    Answered node m none m' o := by
  unfold accept at h
  split at h
  · cases h
  · next w relayInStreams hw =>
    cases h
    have hheld : w ∈ m.held := by
      rw [held, hw]
      simp
    have hs : nodeStep node m.pool (.inbound w) = some
        (⟨{ m.pool.state with streams := w.streamId :: m.pool.state.streams },
          m.pool.threads ++ [Task.body node (.relayEventHandler w none)]⟩, []) :=
      if_neg (hm.fresh hheld)
    apply Answered.arrival (e := .inbound w)
    · trivial
    · exact hs
    · constructor
      · intro n
        have hunique := hm.unique n
        rw [ids_count] at hunique ⊢
        simp only [hw, List.map_cons, List.count_cons] at hunique ⊢
        omega
      · exact hm.proper
      · exact (Acks.nodeStep_bus hm.bounded hs).1

omit [Codec] [Crypto] in
@[simp] theorem held_running (i : ℕ) (c : Call) :
    StreamCall.held ⟨i, c, false⟩ = c.point.held := rfl

theorem turn_answered (hm : m.Sound) {j : ℕ} (h : m.step node (.turn j) = some (m', o)) :
    Answered node m none m' o := by
  simp only [step] at h
  split at h
  · cases h
  · next c hj =>
    split at h
    · cases h
    · next point relayOutStreams spawned hn =>
      cases h
      obtain ⟨i, c, resumed⟩ := c
      obtain rfl : resumed = false := by
        by_contra hne
        obtain ⟨r, hr⟩ := (hm.proper _ (List.mem_of_getElem? hj)).returned (by simpa using hne)
        rw [hr] at hn
        cases hn
      apply Answered.idle
      · rfl
      · rfl
      · constructor
        · intro n
          have hcount := held_set_count ⟨i, ⟨c.peerId, point⟩, false⟩ n hj
          have hqueue := ((Point.next_held hn).map WrappedStream.streamId).count_eq n
          have hunique := hm.unique n
          rw [ids_count] at hunique ⊢
          simp only [held_running, List.map_append, List.count_append] at hcount hqueue hunique ⊢
          omega
        · exact proper_set hm.proper ⟨Point.next_right hn, by simp⟩
        · exact hm.bounded

theorem serve_answered (hm : m.Sound) {kbuckets : List (List MainNets.KadEntry)}
    {published : Bool} (h : m.serve kbuckets published = some (m', o)) :
    Answered node m none m' o := by
  unfold serve at h
  split at h
  · cases h
  · split at h
    · split at h
      · cases h
        exact .idle rfl rfl (hm.of_ids (fun _ => le_rfl) rfl rfl hm.bounded)
      · next t ht =>
        cases h
        apply Answered.idle
        · rfl
        · rw [List.filterMap_map]
          exact List.filterMap_none _
        · refine hm.of_ids (fun n => ?_) rfl rfl hm.bounded
          rw [ids_count, ids_count, serve_waiting ht]
    · cases h

/-- What a protocol reports is an event of the node, or the end of the event loop. -/
theorem report_answered (hm : m.Sound) {loop : Option Task} {state : Shared}
    (hs : m.pool.state = state ∨ ∃ e, nodeStep node m.pool e = some ({ m.pool with state }, []) ∧
      Arrives e)
    (hstreams : state.streams = m.pool.state.streams)
    (h : m.report loop state = some (m', o)) : Answered node m none m' o := by
  unfold report at h
  split at h
  · split at h
    · cases h
      exact .idle rfl rfl (hm.of_ids (fun _ => le_rfl) rfl rfl hm.bounded)
    · cases h
      have hsound : Sound { m with pool := { m.pool with state } } := by
        refine hm.of_ids (fun n => ?_) rfl rfl hm.bounded
        rw [ids_count, ids_count, hstreams]
      rcases hs with rfl | ⟨e, he, harrives⟩
      · exact .idle rfl rfl hsound
      · exact .arrival harrives he hsound
  · cases h

omit [Codec] in
/-- An event of the relay behaviour brings its stream into one of the queues. -/
theorem injectRelayEvent_ids {relay : Relay} {e : RelayEvent} {b : WhitenoiseBehaviour}
    {state : Shared} (hwaiting : m.behaviour.relayBehaviour.waiting = e :: relay.waiting)
    (h : ({ m.behaviour with relayBehaviour := relay } : WhitenoiseBehaviour).injectRelayEvent
      m.pool.state e = (b, state)) (n : ℕ) :
    (ids { m with behaviour := b, pool := { m.pool with state } }).count n = m.ids.count n := by
  rw [ids_count, ids_count, hwaiting]
  cases e with
  | relayInbound w | relayOutbound w =>
    cases h
    simp only [RelayEvent.stream, List.filterMap_cons, List.map_append, List.map_cons,
      List.map_nil, List.count_append, List.count_cons, List.count_nil]
    omega
  | disconnect p =>
    cases h
    rfl

/-- A poll that generates an event. -/
theorem generated_answered (hm : m.Sound) {relay : Relay} {e : RelayEvent}
    {b : WhitenoiseBehaviour} {state : Shared}
    (hwaiting : m.behaviour.relayBehaviour.waiting = e :: relay.waiting)
    (h : ({ m.behaviour with relayBehaviour := relay } : WhitenoiseBehaviour).injectRelayEvent
      m.pool.state e = (b, state)) :
    Answered node m none { m with behaviour := b, pool := { m.pool with state } } [.generated e] := by
  have hsound : Sound { m with behaviour := b, pool := { m.pool with state } } :=
    hm.of_ids (fun n => (injectRelayEvent_ids hwaiting h n).le) rfl rfl hm.bounded
  cases e with
  | relayInbound w | relayOutbound w =>
    cases h
    exact .idle rfl rfl hsound
  | disconnect p =>
    cases h
    exact .arrival (e := .proxyRequest ⟨p, none, some .disconnect⟩) trivial rfl hsound

theorem poll_answered (hm : m.Sound) {target : Option ℕ} (h : m.poll target = some (m', o)) :
    Answered node m none m' o := by
  unfold poll at h
  split at h
  · split at h
    · cases h
    · next e relay hp =>
      obtain ⟨e', he, hwaiting, -⟩ | ⟨p, he, -⟩ := Relay.poll_cases hp
      · cases he
        dsimp only at h
        split at h
        · cases h
          refine .idle rfl rfl (hm.of_ids (fun n => ?_) rfl rfl hm.bounded)
          rw [ids_count, ids_count, hwaiting]
          simp only [stop, List.filterMap_cons]
          split
          · exact le_rfl
          · simp only [List.map_cons, List.count_cons]
            omega
        · cases h
          exact generated_answered hm hwaiting rfl
      · cases he
    · next p x relay hp =>
      obtain ⟨e', he, -⟩ | ⟨p', he, -, hrelay⟩ := Relay.poll_cases hp
      · cases he
      · have hsound (connections : List (Connection X)) : Sound { m with
            behaviour := { m.behaviour with relayBehaviour := relay }, connections } := by
          refine hm.of_ids (fun n => ?_) rfl rfl hm.bounded
          rw [ids_count, ids_count, hrelay]
          rfl
        split at h
        · cases h
          exact .idle rfl rfl (hsound _)
        · split at h
          · cases h
          · split at h
            · cases h
              exact .idle rfl rfl (hsound _)
            · cases h
  · cases h

omit [Codec] [Crypto] in
@[simp] theorem stream_wrap (w : WrappedStream) (e : RelayHandlerOutEvent X) :
    (Relay.wrap w e).stream = some w := by
  cases e <;> rfl

theorem injectEvent_answered (hm : m.Sound) {c id : ℕ} (h : m.injectEvent c id = some (m', o)) :
    Answered node m none m' o := by
  unfold injectEvent at h
  split at h
  · cases h
  · next conn hc =>
    split at h
    · cases h
    · next e notices he =>
      split at h
      · next hid =>
        cases h
        apply Answered.idle
        · rfl
        · rfl
        · constructor
          · intro n
            have hunique := hm.unique n
            rw [ids_count] at hunique ⊢
            simp only [Relay.waiting_injectEvent, List.filterMap_append, List.filterMap_cons,
              List.filterMap_nil, stream_wrap, List.map_append, List.map_cons, List.map_nil,
              List.count_append, List.count_cons, List.count_nil, List.mem_cons]
            by_cases hn : n = id
            · subst hn
              rw [if_neg hid.2] at hunique
              simp only [beq_self_eq_true, true_or, if_true]
              omega
            · have hne : (id == n) = false := by simpa using fun h => hn h.symm
              simp only [hne, hn, false_or, Bool.false_eq_true, if_false]
              omega
          · exact hm.proper
          · exact hm.bounded
      · cases h

/-! ## All steps -/

theorem newRelayStream_answered (hm : m.Sound) {i : ℕ}
    (h : m.step node (.newRelayStream i) = some (m', o)) : Answered node m none m' o := by
  simp only [step] at h
  split at h
  · next p k ht =>
    split at h
    · cases h
    · cases h
      apply Answered.idle
      · rfl
      · rfl
      · constructor
        · intro n
          have hunique := hm.unique n
          rw [ids_count] at hunique ⊢
          simpa [Point.held, Point.hand, Point.result] using hunique
        · intro c hc
          rcases List.mem_append.mp hc with hc | hc
          · exact hm.proper c hc
          · obtain rfl := List.mem_singleton.mp hc
            exact ⟨⟨by simp [Point.hand], by simp [Point.result]⟩, by simp⟩
        · exact hm.bounded
  · cases h

theorem step_answered (hm : m.Sound) {e : Event X} (h : m.step node e = some (m', o)) :
    Answered node m (m.operation e) m' o := by
  cases e with
  | thread i c => exact thread_answered hm h
  | newRelayStream i => exact newRelayStream_answered hm h
  | turn j => exact turn_answered hm h
  | resume j => exact resume_answered hm h
  | ask i => exact ask_answered hm h
  | answered j => exact answered_answered hm h
  | addPeerAddresses peer addrs =>
    simp only [step] at h
    split at h
    · cases h
      exact .idle rfl rfl (hm.of_ids (fun _ => le_rfl) rfl rfl hm.bounded)
    · cases h
  | accept => exact accept_answered hm h
  | serve kbuckets published => exact serve_answered hm h
  | poll target => exact poll_answered hm h
  | injectEvent c id => exact injectEvent_answered hm h
  | send j =>
    simp only [step] at h
    split at h
    · cases h
    · cases h
      exact .idle rfl rfl (hm.of_ids (fun _ => le_rfl) rfl rfl hm.bounded)
  | call t =>
    cases h
    have hs : nodeStep node m.pool (.call t) = some
        ({ m.pool with threads := m.pool.threads ++ [Task.body node t] }, []) := rfl
    have hbounded := (Acks.nodeStep_bus hm.bounded hs).1
    exact .single (e := .call t) hs rfl (hm.of_ids (fun _ => le_rfl) rfl rfl hbounded)
  | disconnected peer =>
    simp only [step] at h
    split at h
    · cases h
      refine .idle rfl rfl (hm.of_ids (fun n => ?_) rfl rfl hm.bounded)
      rw [ids_count, ids_count, Relay.waiting_injectDisconnected, List.filterMap_append]
      simp [RelayEvent.stream, List.filterMap_cons]
    · cases h
  | proxy e =>
    refine report_answered hm ?_ ?_ h
    · cases e with
      | request peer request => exact Or.inr ⟨.proxyRequest ⟨peer, some request, none⟩, rfl, trivial⟩
      | _ => exact Or.inl rfl
    · cases e <;> rfl
  | cmd e =>
    refine report_answered hm ?_ ?_ h
    · cases e with
      | request peer request => exact Or.inr ⟨.cmdRequest ⟨peer, some request⟩, rfl, trivial⟩
      | _ => exact Or.inl rfl
    · cases e <;> rfl
  | ack e =>
    refine report_answered hm ?_ ?_ h
    · cases e with
      | request peer request => exact Or.inr ⟨.ack peer request, rfl, trivial⟩
      | _ => exact Or.inl rfl
    · cases e with
      | request peer request =>
        simp only [injectAckEvent, Shared.injectAck]
        split <;> rfl
      | _ => rfl
  | gossipsub e =>
    refine report_answered hm ?_ ?_ h
    · cases e with
      | message data =>
        cases hmode : m.mode with
        | server => exact Or.inr ⟨.gossip data, rfl, trivial⟩
        | client => exact Or.inl rfl
      | _ => exact Or.inl rfl
    · cases e with
      | message data => cases m.mode <;> rfl
      | _ => rfl
  | established peer =>
    cases h
    exact .idle rfl rfl (hm.of_ids (fun _ => le_rfl) rfl rfl hm.bounded)
  | connection c e =>
    simp only [step] at h
    split at h
    · cases h
    · split at h
      · cases h
      · cases h
        exact .idle rfl rfl (hm.of_ids (fun _ => le_rfl) rfl rfl hm.bounded)
  | frame id res =>
    cases h
    exact .arrival (e := .frame id res) trivial rfl (hm.of_ids (fun _ => le_rfl) rfl rfl hm.bounded)

theorem refines_node (node : Node) :
    Refines (step (X := X) node) (nodeStep node) Out.output fun m p => m.Sound ∧ m.pool = p := by
  rintro m _ e m' o ⟨hm, rfl⟩ h
  have hanswered := step_answered hm h
  exact ⟨m'.pool, hanswered.steps, hanswered.2, rfl⟩

theorem start_sound (X : Type) (node : Node) (mode : RunMode) : (start X node mode).Sound where
  unique n := by simp [ids, held, start, Acks.start, Relay.waiting]
  proper c hc := by cases hc
  bounded := Acks.start_bounded _

/-- What the tasks do in a run of the machine is what they do in a run of the node, with the same
threads over the same state and the same outputs. -/
theorem run_refines {mode : RunMode} {es : List (Event X)} {os : List (Out X)}
    (h : run (step node) (start X node mode) es = some (m, os)) :
    ∃ fs, run (nodeStep node) (Acks.start node (startTasks mode)) fs =
      some (m.pool, os.filterMap Out.output) := by
  obtain ⟨fs, p, hrun, -, rfl⟩ := Refines.run (refines_node node)
    ⟨start_sound X node mode, rfl⟩ h
  exact ⟨fs, hrun⟩

end Machine

end Generic

namespace Sample

def peer : PeerId := ⟨"peer"⟩

def node : Node := ⟨(⟨.ed25519, List.replicate 32 7⟩ : Ideal.Keypair), some peer, none⟩

/-- A substream comes in. -/
def comesIn : List (Event ℕ) := [.established peer, .connection 0 (.inbound 7)]

/-- Its stream is handed to the node. -/
def handedOn : List (Event ℕ) := [.connection 0 .poll, .injectEvent 0 3, .poll none, .accept]

/-- The node dials, and gets a stream to its proxy. -/
def dials : List (Event ℕ) :=
  [.call (.dial "02"), .thread 4 (.micros 1), .thread 4 .go, .newRelayStream 4, .turn 0, .send 0,
    .serve [] true, .poll (some 0), .connection 0 .command, .connection 0 .poll,
    .connection 0 (.outbound 8), .connection 0 .poll, .injectEvent 0 4, .poll none, .turn 0,
    .turn 0, .resume 0]

theorem exists_dialed : ∃ m os, run (Machine.step node) (Machine.start ℕ node .server)
    (comesIn ++ handedOn ++ dials) = some (m, os) := by
  obtain ⟨m, os, hr, -⟩ := exists_run (Machine.step node) (Machine.start ℕ node .server)
    (comesIn ++ handedOn ++ dials) (fun _ => true) (by decide +kernel)
  exact ⟨m, os, hr⟩

end Sample

theorem run_refines_dialed : ∃ m os fs, run (Machine.step Sample.node)
    (Machine.start ℕ Sample.node .server) (Sample.comesIn ++ Sample.handedOn ++ Sample.dials) =
      some (m, os) ∧
    run (nodeStep Sample.node) (Acks.start Sample.node (startTasks .server)) fs =
      some (m.pool, os.filterMap Out.output) := by
  obtain ⟨m, os, hr⟩ := Sample.exists_dialed
  obtain ⟨fs, hfs⟩ := Machine.run_refines hr
  exact ⟨m, os, fs, hr, hfs⟩

end WhiteNoise.Swarm
