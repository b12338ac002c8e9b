import WhiteNoise.Swarm.Refinement

/-! # What becomes of the substreams

A negotiated substream goes from its handler to the behaviour and from there
into a queue of the node, past three queues in all. On each connection and in
each direction the substreams are wrapped in the order in which they were
negotiated, and what the behaviour was told comes out of it in that order too.
-/

namespace WhiteNoise.Swarm

open Wire Process

section Generic

variable {X : Type}

/-! ## One connection -/

inductive Direction where
  | inbound | outbound
  deriving DecidableEq

/-- The substream of the event, if it has the direction. -/
def RelayHandlerOutEvent.stream : Direction → RelayHandlerOutEvent X → Option X
  | .inbound, relayInbound x => some x
  | .outbound, relayOutbound x => some x
  | _, _ => none

def ProtocolsHandlerEvent.stream (d : Direction) : ProtocolsHandlerEvent X → Option X
  | custom e => e.stream d
  | outboundSubstreamRequest => none

def RelayHandler.queue : Direction → RelayHandler X → List X
  | .inbound, h => h.inbound
  | .outbound, h => h.outbound

/-- The substream that is negotiated. -/
def ConnectionEvent.negotiated : Direction → ConnectionEvent X → Option X
  | .inbound, inbound x => some x
  | .outbound, outbound x => some x
  | _, _ => none

/-- The negotiated substreams that have not reached the behaviour, in their order. -/
def Connection.pending (d : Direction) (conn : Connection X) : List X :=
  conn.notices.filterMap (RelayHandlerOutEvent.stream d) ++ conn.handler.queue d

theorem filterMap_singleton {α β : Type} (f : α → Option β) (a : α) :
    [a].filterMap f = (f a).toList := by
  cases h : f a <;> simp [h]

theorem RelayHandler.poll_flow {h h' : RelayHandler X} {e : ProtocolsHandlerEvent X}
    (hp : h.poll = some (e, h')) (d : Direction) :
    Flow (e.stream d).toList [] (h.queue d) (h'.queue d) := by
  rcases RelayHandler.poll_cases hp with ⟨x, rfl, rfl⟩ | ⟨x, rfl, rfl⟩ | ⟨x, rfl, rfl⟩
  · cases d with
    | inbound => exact .take [x] _
    | outbound => exact .refl _
  · cases d with
    | inbound => exact .refl _
    | outbound => exact .take [x] _
  · cases d with
    | inbound => exact .refl _
    | outbound => exact .refl _

/-- What one event puts in and takes out of the queues of the connection. -/
theorem Connection.step_flow {conn conn' : Connection X} {e : ConnectionEvent X}
    (h : conn.step e = some conn') (d : Direction) :
    Flow [] (e.negotiated d).toList (conn.pending d) (conn'.pending d) := by
  cases e with
  | inbound x =>
    simp only [step] at h
    split at h
    · cases h
      cases d with
      | inbound => exact (Flow.refl _).serial (.put [x] _)
      | outbound => exact .refl _
    · cases h
  | outbound x =>
    simp only [step] at h
    split at h
    · cases h
      cases d with
      | inbound => exact .refl _
      | outbound => exact (Flow.refl _).serial (.put [x] _)
    · cases h
  | dialUpgradeError =>
    simp only [step] at h
    split at h
    · cases h
      cases d <;> exact .refl _
    · cases h
  | command =>
    simp only [step] at h
    split at h
    · cases h
    · split at h
      · cases h
        cases d <;> exact .refl _
      · cases h
  | poll =>
    simp only [step] at h
    split at h
    · cases h
    · next x handler hp =>
      split at h
      · cases h
        have hnotice := (Flow.put [x] conn.notices).filterMap (RelayHandlerOutEvent.stream d)
        rw [filterMap_singleton] at hnotice
        have hflow := hnotice.serial (RelayHandler.poll_flow hp d)
        cases d <;> exact hflow
      · cases h
    · next handler hp =>
      split at h
      · cases h
        have hnotices := Flow.refl (conn.notices.filterMap (RelayHandlerOutEvent.stream d))
        have hflow := hnotices.serial (RelayHandler.poll_flow hp d)
        cases d <;> exact hflow
      · cases h
  | closed =>
    cases h
    cases d <;> exact .refl _

/-! ## What a step does to the queues -/

/-- The stream that the event brings for the accept loop. -/
def RelayEvent.inbound : RelayEvent → Option WrappedStream
  | relayInbound x => some x
  | _ => none

/-- What only concerns the tasks and the event loop. -/
def Out.Inner : Out X → Prop
  | node _ | loop _ => True
  | _ => False

/-- The substream that is negotiated on the connection. -/
def Event.negotiated (c : ℕ) (d : Direction) : Event X → Option X
  | connection c' e => if c' = c then e.negotiated d else none
  | _ => none

/-- The substream of the connection that is wrapped. -/
def Out.substream (c : ℕ) (d : Direction) : Out X → Option X
  | wrapped c' e _ => if c' = c then e.stream d else none
  | _ => none

/-- What the behaviour is told. -/
def Out.injected : Out X → Option RelayEvent
  | wrapped _ e w => some (Relay.wrap w e)
  | disconnected p => some (.disconnect p)
  | _ => none

def Out.event : Out X → Option RelayEvent
  | generated e => some e
  | _ => none

def Out.stream : Out X → Option WrappedStream
  | accepted w => some w
  | _ => none

def Event.IsConnection : Event X → Prop
  | connection _ _ => True
  | _ => False

variable [Codec] [Crypto] {node : Node} {m m' : Machine X} {e : Event X} {o : List (Out X)}

/-- The events that wait in the relay behaviour. -/
def Machine.waiting (m : Machine X) : List RelayEvent := m.behaviour.relayBehaviour.waiting

/-- What a step does to the connections, to the events of the relay behaviour and to the streams
that wait to be accepted. -/
inductive Change (m m' : Machine X) : Event X → List (Out X) → Prop
  | inner {e : Event X} {o : List (Out X)} (he : ¬ e.IsConnection) (ho : ∀ x ∈ o, x.Inner)
      (hconnections : m'.connections = m.connections) (hwaiting : m'.waiting = m.waiting)
      (hin : m'.behaviour.relayInStreams = m.behaviour.relayInStreams)
      (hdrawn : m'.drawn = m.drawn) : Change m m' e o
  | connection {c : ℕ} {ce : ConnectionEvent X} {conn conn' : Connection X}
      (hc : m.connections[c]? = some conn) (hs : conn.step ce = some conn')
      (hm' : m' = { m with connections := m.connections.set c conn' }) :
      Change m m' (.connection c ce) []
  | injectEvent {c id : ℕ} {conn : Connection X} {x : RelayHandlerOutEvent X}
      {notices : List (RelayHandlerOutEvent X)} (hc : m.connections[c]? = some conn)
      (hx : conn.notices = x :: notices) (hid : id ∉ m.drawn)
      (hconnections : m'.connections = m.connections.set c { conn with notices })
      (hwaiting : m'.waiting = m.waiting ++ [Relay.wrap ⟨conn.peer, id⟩ x])
      (hin : m'.behaviour.relayInStreams = m.behaviour.relayInStreams)
      (hdrawn : m'.drawn = id :: m.drawn) :
      Change m m' (.injectEvent c id) [.wrapped c x ⟨conn.peer, id⟩]
  | generated {target : Option ℕ} {x : RelayEvent} (hwaiting : m.waiting = x :: m'.waiting)
      (hconnections : m'.connections = m.connections)
      (hin : m'.behaviour.relayInStreams = m.behaviour.relayInStreams ++ x.inbound.toList)
      (hdrawn : m'.drawn = m.drawn) : Change m m' (.poll target) [.generated x]
  | notified {c : ℕ} {conn : Connection X} {x : RelayHandlerInEvent}
      (hc : m.connections[c]? = some conn)
      (hconnections : m'.connections =
        m.connections.set c { conn with commands := conn.commands ++ [x] })
      (hwaiting : m'.waiting = m.waiting)
      (hin : m'.behaviour.relayInStreams = m.behaviour.relayInStreams)
      (hdrawn : m'.drawn = m.drawn) : Change m m' (.poll (some c)) [.notified c x]
  | disconnected {p : PeerId} (hconnections : m'.connections = m.connections)
      (hwaiting : m'.waiting = m.waiting ++ [.disconnect p])
      (hin : m'.behaviour.relayInStreams = m.behaviour.relayInStreams)
      (hdrawn : m'.drawn = m.drawn) : Change m m' (.disconnected p) [.disconnected p]
  | established {p : PeerId} (hm' : m' = { m with connections := m.connections ++ [{ peer := p }] }) :
      Change m m' (.established p) []
  | accept {w : WrappedStream}
      (hin : m.behaviour.relayInStreams = w :: m'.behaviour.relayInStreams)
      (hconnections : m'.connections = m.connections) (hwaiting : m'.waiting = m.waiting)
      (hdrawn : m'.drawn = m.drawn) : Change m m' .accept [.accepted w]

omit [Codec] [Crypto] in
theorem inner_map_node (os : List Output) :
    ∀ x ∈ os.map (Out.node : Output → Out X), x.Inner := by
  intro x hx
  obtain ⟨o, -, rfl⟩ := List.mem_map.mp hx
  trivial

namespace Machine

omit [Codec] in
theorem report_change {loop : Option Task} {state : Shared} (he : ¬ e.IsConnection)
    (h : m.report loop state = some (m', o)) : Change m m' e o := by
  unfold report at h
  split at h
  · split at h
    · cases h
      exact .inner he (by simp) rfl rfl rfl rfl
    · cases h
      exact .inner he (by simp) rfl rfl rfl rfl
  · cases h

omit [Codec] in
theorem poll_change {target : Option ℕ} (h : m.poll target = some (m', o)) :
    Change m m' (.poll target) o := by
  unfold poll at h
  split at h
  · split at h
    · cases h
    · next x relay hp =>
      obtain ⟨x', hx, hwaiting, -⟩ | ⟨p, hx, -⟩ := Relay.poll_cases hp
      · cases hx
        dsimp only at h
        split at h
        · next hfailed =>
          cases h
          have hin : x.inbound = none := by
            cases x with
            | disconnect p => rfl
            | _ => simp [RelayEvent.receiver] at hfailed
          refine .generated hwaiting rfl ?_ rfl
          rw [hin]
          exact (List.append_nil _).symm
        · cases h
          cases x with
          | relayInbound w => exact .generated hwaiting rfl rfl rfl
          | relayOutbound w => exact .generated hwaiting rfl (List.append_nil _).symm rfl
          | disconnect p => exact .generated hwaiting rfl (List.append_nil _).symm rfl
      · cases hx
    · next p x relay hp =>
      obtain ⟨x', hx, -⟩ | ⟨p', hx, -, hrelay⟩ := Relay.poll_cases hp
      · cases hx
      · have hwaiting : relay.waiting = m.waiting := by
          rw [waiting, hrelay]
          rfl
        split at h
        · cases h
          exact .inner id (by simp) rfl hwaiting rfl rfl
        · split at h
          · cases h
          · next conn hc =>
            split at h
            · cases h
              exact .notified hc rfl hwaiting rfl rfl
            · cases h
  · cases h

omit [Codec] in
theorem injectEvent_change {c id : ℕ} (h : m.injectEvent c id = some (m', o)) :
    Change m m' (.injectEvent c id) o := by
  unfold injectEvent at h
  split at h
  · cases h
  · next conn hc =>
    split at h
    · cases h
    · next x notices hx =>
      split at h
      · next hid =>
        cases h
        exact .injectEvent hc hx hid.2 rfl (Relay.waiting_injectEvent ..) rfl rfl
      · cases h

theorem step_change (h : m.step node e = some (m', o)) : Change m m' e o := by
  cases e with
  | thread i c =>
    simp only [step, thread] at h
    split at h
    · cases h
    · split at h
      · cases h
      · split at h
        · cases h
        · cases h
          exact .inner id (inner_map_node _) rfl rfl rfl rfl
  | newRelayStream i =>
    simp only [step] at h
    split at h
    · split at h
      · cases h
      · cases h
        exact .inner id (by simp) rfl rfl rfl rfl
    · cases h
  | turn j =>
    simp only [step] at h
    split at h
    · cases h
    · split at h
      · cases h
      · cases h
        exact .inner id (by simp) rfl rfl rfl rfl
  | send j =>
    simp only [step] at h
    split at h
    · cases h
    · cases h
      exact .inner id (by simp) rfl rfl rfl rfl
  | resume j =>
    simp only [step, resume] at h
    split at h
    · split at h
      · split at h
        · split at h
          · cases h
            exact .inner id (by simp) rfl rfl rfl rfl
          · cases h
            exact .inner id (by simp [Out.Inner]) rfl rfl rfl rfl
        · cases h
      · cases h
    · cases h
  | ask i =>
    simp only [step, ask] at h
    split at h
    · cases h
    · split at h
      · cases h
        exact .inner id (by simp) rfl rfl rfl rfl
      · cases h
        exact .inner id (by simp) rfl rfl rfl rfl
      · cases h
  | answered j =>
    obtain ⟨q, a, t, pool, os, -, -, -, -, -, rfl, rfl⟩ := answered_cases h
    exact .inner id (inner_map_node _) rfl rfl rfl rfl
  | addPeerAddresses peer addrs =>
    simp only [step] at h
    split at h
    · cases h
      exact .inner id (by simp) rfl rfl rfl rfl
    · cases h
  | accept =>
    simp only [step, accept] at h
    split at h
    · cases h
    · next w relayInStreams hw =>
      cases h
      exact .accept hw rfl rfl rfl
  | call t =>
    cases h
    exact .inner id (by simp) rfl rfl rfl rfl
  | serve kbuckets published =>
    simp only [step, serve] at h
    split at h
    · cases h
    · split at h
      · split at h
        · cases h
          exact .inner id (by simp) rfl rfl rfl rfl
        · next t ht =>
          cases h
          refine .inner id (fun x hx => ?_) rfl (serve_waiting ht) rfl rfl
          obtain ⟨o, -, rfl⟩ := List.mem_map.mp hx
          trivial
      · cases h
  | poll target => exact poll_change h
  | injectEvent c id => exact injectEvent_change h
  | disconnected p =>
    simp only [step] at h
    split at h
    · cases h
      exact .disconnected rfl (Relay.waiting_injectDisconnected ..) rfl rfl
    · cases h
  | proxy e => exact report_change id h
  | cmd e => exact report_change id h
  | ack e => exact report_change id h
  | gossipsub e => exact report_change id h
  | established p =>
    cases h
    exact .established rfl
  | connection c ce =>
    simp only [step] at h
    split at h
    · cases h
    · next conn hc =>
      split at h
      · cases h
      · next conn' hs =>
        cases h
        exact .connection hc hs rfl
  | frame id res =>
    cases h
    exact .inner (fun h => h) (by simp) rfl rfl rfl rfl

end Machine

/-! ## The queues along a run -/

omit [Codec] [Crypto] in
theorem Event.negotiated_eq_none (he : ¬ e.IsConnection) (c : ℕ) (d : Direction) :
    e.negotiated c d = none := by
  cases e with
  | connection => exact absurd trivial he
  | _ => rfl

omit [Codec] [Crypto] in
theorem inner_filterMap {β : Type} {f : Out X → Option β} (ho : ∀ x ∈ o, x.Inner)
    (hnode : ∀ y, f (.node y) = none) (hloop : ∀ y, f (.loop y) = none) : o.filterMap f = [] := by
  rw [List.filterMap_eq_nil_iff]
  intro x hx
  cases x with
  | node y => exact hnode y
  | loop y => exact hloop y
  | _ => exact absurd (ho _ hx) id

/-- The substreams of the connection that have not reached the behaviour. -/
def Machine.pending (m : Machine X) (c : ℕ) (d : Direction) : List X :=
  (m.connections[c]?).elim [] (Connection.pending d)

omit [Codec] [Crypto] in
theorem elim_set {α : Type} {f : Connection X → List α} {l : List (Connection X)} {c' : ℕ}
    {conn conn' : Connection X} (hc : l[c']? = some conn) (c : ℕ) :
    ((l.set c' conn')[c]?).elim [] f = if c' = c then f conn' else (l[c]?).elim [] f := by
  have hlt : c' < l.length := by
    by_contra hge
    rw [List.getElem?_eq_none (by omega)] at hc
    cases hc
  rw [List.getElem?_set]
  by_cases h : c' = c
  · simp [h, h ▸ hlt]
  · simp [h]

omit [Codec] in
/-- One step, seen from a connection. -/
theorem Change.pending_flow (h : Change m m' e o) (c : ℕ) (d : Direction) :
    Flow (o.filterMap (Out.substream c d)) (e.negotiated c d).toList (m.pending c d)
      (m'.pending c d) := by
  cases h with
  | inner he ho hconnections =>
    rw [inner_filterMap ho (fun _ => rfl) (fun _ => rfl), e.negotiated_eq_none he, Machine.pending,
      Machine.pending, hconnections]
    exact .refl _
  | @connection c' ce conn conn' hc hs hm' =>
    rw [hm', Machine.pending, Machine.pending, elim_set hc, Event.negotiated]
    by_cases heq : c' = c
    · rw [if_pos heq, if_pos heq, ← heq, hc]
      exact Connection.step_flow hs d
    · rw [if_neg heq, if_neg heq]
      exact .refl _
  | @injectEvent c' id conn x notices hc hx hid hconnections =>
    rw [Machine.pending, Machine.pending, hconnections, elim_set hc]
    by_cases heq : c' = c
    · have htake := (Flow.take [x] notices).filterMap (RelayHandlerOutEvent.stream d)
      rw [filterMap_singleton] at htake
      have hflow := htake.serial (Flow.refl (conn.handler.queue d))
      rw [if_pos heq, ← heq, hc, filterMap_singleton, Out.substream, if_pos rfl]
      change Flow _ [] (conn.pending d) _
      rw [Connection.pending, hx]
      exact hflow
    · rw [if_neg heq, filterMap_singleton, Out.substream, if_neg heq]
      exact .refl _
  | generated hwaiting hconnections =>
    rw [Machine.pending, Machine.pending, hconnections]
    exact .refl _
  | @notified c' conn x hc hconnections =>
    rw [Machine.pending, Machine.pending, hconnections, elim_set hc]
    by_cases heq : c' = c
    · rw [if_pos heq, ← heq, hc]
      cases d <;> exact .refl _
    · rw [if_neg heq]
      exact .refl _
  | disconnected hconnections =>
    rw [Machine.pending, Machine.pending, hconnections]
    exact .refl _
  | @established p hm' =>
    have hpending : Machine.pending { m with connections := m.connections ++ [{ peer := p }] } c d =
        m.pending c d := by
      rw [Machine.pending, Machine.pending, List.getElem?_append]
      split
      · rfl
      · next hge =>
        rw [List.getElem?_eq_none (by omega : m.connections.length ≤ c), List.getElem?_singleton]
        split
        · cases d <;> rfl
        · rfl
    rw [hm', hpending]
    exact .refl _
  | accept hin hconnections =>
    rw [Machine.pending, Machine.pending, hconnections]
    exact .refl _

omit [Codec] in
theorem Change.waiting_flow (h : Change m m' e o) :
    Flow (o.filterMap Out.event) (o.filterMap Out.injected) m.waiting m'.waiting := by
  cases h with
  | inner he ho hconnections hwaiting =>
    rw [inner_filterMap ho (fun _ => rfl) (fun _ => rfl),
      inner_filterMap ho (fun _ => rfl) (fun _ => rfl), hwaiting]
    exact .refl _
  | connection hc hs hm' =>
    rw [hm']
    exact .refl _
  | injectEvent hc hx hid hconnections hwaiting =>
    rw [hwaiting]
    exact .put _ _
  | generated hwaiting =>
    rw [hwaiting]
    exact .take [_] _
  | notified hc hconnections hwaiting =>
    rw [hwaiting]
    exact .refl _
  | disconnected hconnections hwaiting =>
    rw [hwaiting]
    exact .put _ _
  | established hm' =>
    rw [hm']
    exact .refl _
  | accept hin hconnections hwaiting =>
    rw [hwaiting]
    exact .refl _

omit [Codec] in
theorem Change.accepted_flow (h : Change m m' e o) :
    Flow (o.filterMap Out.stream) ((o.filterMap Out.event).filterMap RelayEvent.inbound)
      m.behaviour.relayInStreams m'.behaviour.relayInStreams := by
  cases h with
  | inner he ho hconnections hwaiting hin =>
    rw [inner_filterMap ho (fun _ => rfl) (fun _ => rfl),
      inner_filterMap ho (fun _ => rfl) (fun _ => rfl), hin]
    exact .refl _
  | connection hc hs hm' =>
    rw [hm']
    exact .refl _
  | injectEvent hc hx hid hconnections hwaiting hin =>
    rw [hin]
    exact .refl _
  | @generated target x hwaiting hconnections hin =>
    have hput : ([Out.generated x].filterMap (Out.event (X := X))).filterMap RelayEvent.inbound =
        x.inbound.toList := filterMap_singleton _ _
    rw [hin, hput]
    exact .put _ _
  | notified hc hconnections hwaiting hin =>
    rw [hin]
    exact .refl _
  | disconnected hconnections hwaiting hin =>
    rw [hin]
    exact .refl _
  | established hm' =>
    rw [hm']
    exact .refl _
  | accept hin =>
    rw [hin]
    exact .take [_] _

/-! ## Identifiers and peers -/

/-- The identifier under which a substream is wrapped. -/
def Out.streamId : Out X → Option ℕ
  | wrapped _ _ w => some w.streamId
  | _ => none

/-- The identifiers drawn are those of the wrapped substreams, and no two are the same. -/
structure Machine.Drawn (m : Machine X) (os : List (Out X)) : Prop where
  drawn : os.filterMap Out.streamId = m.drawn.reverse
  nodup : m.drawn.Nodup

omit [Codec] in
theorem Change.drawn (h : Change m m' e o) {os : List (Out X)} (hm : m.Drawn os) :
    m'.Drawn (os ++ o) := by
  have same (ho : o.filterMap Out.streamId = []) (hdrawn : m'.drawn = m.drawn) :
      m'.Drawn (os ++ o) := by
    constructor
    · rw [List.filterMap_append, ho, List.append_nil, hdrawn, hm.drawn]
    · rw [hdrawn]
      exact hm.nodup
  cases h with
  | inner he ho _ _ _ hdrawn => exact same (inner_filterMap ho (fun _ => rfl) (fun _ => rfl)) hdrawn
  | connection _ _ hm' =>
    subst hm'
    exact same rfl rfl
  | injectEvent hc hx hid hconnections hwaiting hin hdrawn =>
    constructor
    · rw [List.filterMap_append, hdrawn, List.reverse_cons, hm.drawn]
      rfl
    · rw [hdrawn]
      exact List.nodup_cons.mpr ⟨hid, hm.nodup⟩
  | generated _ _ _ hdrawn => exact same rfl hdrawn
  | notified _ _ _ _ hdrawn => exact same rfl hdrawn
  | disconnected _ _ _ hdrawn => exact same rfl hdrawn
  | established hm' =>
    subst hm'
    exact same rfl rfl
  | accept _ _ _ hdrawn => exact same rfl hdrawn

omit [Codec] [Crypto] in
theorem Connection.step_peer {conn conn' : Connection X} {ce : ConnectionEvent X}
    (h : conn.step ce = some conn') : conn'.peer = conn.peer := by
  cases ce with
  | inbound | outbound | dialUpgradeError =>
    simp only [step] at h
    split at h <;> cases h
    rfl
  | command =>
    simp only [step] at h
    split at h
    · cases h
    · split at h <;> cases h
      rfl
  | poll =>
    simp only [step] at h
    split at h
    · cases h
    · split at h <;> cases h
      rfl
    · split at h <;> cases h
      rfl
  | closed =>
    cases h
    rfl

omit [Codec] [Crypto] in
theorem peer_set {l : List (Connection X)} {c c' : ℕ} {conn conn₁ conn₂ : Connection X}
    (hc : l[c']? = some conn₁) (hpeer : conn₂.peer = conn₁.peer) (h : l[c]? = some conn) :
    ∃ conn', (l.set c' conn₂)[c]? = some conn' ∧ conn'.peer = conn.peer := by
  by_cases heq : c' = c
  · subst heq
    obtain rfl := Option.some.inj (hc.symm.trans h)
    exact ⟨conn₂, List.getElem?_set_self (List.getElem?_eq_some_iff.mp hc).1, hpeer⟩
  · exact ⟨conn, by rw [List.getElem?_set_ne heq, h], rfl⟩

omit [Codec] in
/-- A connection stays a connection to its peer. -/
theorem Change.peer (h : Change m m' e o) {c : ℕ} {conn : Connection X}
    (hc : m.connections[c]? = some conn) :
    ∃ conn', m'.connections[c]? = some conn' ∧ conn'.peer = conn.peer := by
  cases h with
  | inner _ _ hconnections => exact ⟨conn, hconnections ▸ hc, rfl⟩
  | connection hc' hs hm' =>
    subst hm'
    exact peer_set hc' (Connection.step_peer hs) hc
  | injectEvent hc' _ _ hconnections =>
    rw [hconnections]
    exact peer_set hc' rfl hc
  | generated _ hconnections => exact ⟨conn, hconnections ▸ hc, rfl⟩
  | notified hc' hconnections =>
    rw [hconnections]
    exact peer_set hc' rfl hc
  | disconnected hconnections => exact ⟨conn, hconnections ▸ hc, rfl⟩
  | established hm' =>
    subst hm'
    have hlt := (List.getElem?_eq_some_iff.mp hc).1
    exact ⟨conn, by rw [List.getElem?_append_left hlt, hc], rfl⟩
  | accept _ hconnections => exact ⟨conn, hconnections ▸ hc, rfl⟩

/-- Each wrapped stream is one to the peer of its connection. -/
def Machine.Placed (m : Machine X) (os : List (Out X)) : Prop :=
  ∀ c x w, .wrapped c x w ∈ os →
    ∃ conn, m.connections[c]? = some conn ∧ conn.peer = w.remotePeerId

omit [Codec] in
theorem Change.placed (h : Change m m' e o) {os : List (Out X)} (hm : m.Placed os) :
    m'.Placed (os ++ o) := by
  intro c x w hw
  rcases List.mem_append.mp hw with hw | hw
  · obtain ⟨conn, hc, hpeer⟩ := hm c x w hw
    obtain ⟨conn', hc', hpeer'⟩ := h.peer hc
    exact ⟨conn', hc', hpeer'.trans hpeer⟩
  · cases h with
    | inner _ ho => exact absurd (ho _ hw) id
    | injectEvent hc _ _ hconnections =>
      obtain ⟨rfl, rfl, rfl⟩ : c = _ ∧ x = _ ∧ w = _ := by simpa using hw
      rw [hconnections]
      exact peer_set hc rfl hc
    | _ => simp at hw

/-! ## All runs -/

/-- What has come in is handed on in its order. -/
structure Conveyed (es : List (Event X)) (os : List (Out X)) (m : Machine X) : Prop where
  /-- On each connection and in each direction they are wrapped in the order of negotiation. -/
  wrapped : ∀ c d, es.filterMap (Event.negotiated c d) =
    os.filterMap (Out.substream c d) ++ m.pending c d
  /-- The behaviour reports what it was told, in that order, the ends of connections included. -/
  reported : os.filterMap Out.injected = os.filterMap Out.event ++ m.waiting
  /-- What it reports as inbound is accepted in that order. -/
  accepted : (os.filterMap Out.event).filterMap RelayEvent.inbound =
    os.filterMap Out.stream ++ m.behaviour.relayInStreams

/-- Where the substreams of a run are. -/
structure Delivered (es : List (Event X)) (os : List (Out X)) (m : Machine X) : Prop
    extends Conveyed es os m where
  distinct : (os.filterMap Out.streamId).Nodup
  /-- No stream is accepted twice. -/
  once : ((os.filterMap Out.stream).map WrappedStream.streamId).Nodup
  placed : m.Placed os

variable {mode : RunMode} {es : List (Event X)} {os : List (Out X)}

omit [Codec] [Crypto] in
theorem streamId_eq (os : List (Out X)) : os.filterMap Out.streamId =
    ((os.filterMap Out.injected).filterMap RelayEvent.stream).map WrappedStream.streamId := by
  rw [List.filterMap_filterMap, List.map_filterMap]
  congr 1
  funext x
  cases x with
  | wrapped c e w => cases e <;> rfl
  | _ => rfl

omit [Codec] [Crypto] in
theorem inbound_sublist (es : List RelayEvent) :
    (es.filterMap RelayEvent.inbound).Sublist (es.filterMap RelayEvent.stream) := by
  induction es with
  | nil => exact .slnil
  | cons e es ih =>
    cases e with
    | relayInbound w => exact ih.cons_cons w
    | relayOutbound w => exact ih.cons w
    | disconnect p => exact ih

omit [Codec] in
theorem Conveyed.once (h : Conveyed es os m) (hdistinct : (os.filterMap Out.streamId).Nodup) :
    ((os.filterMap Out.stream).map WrappedStream.streamId).Nodup := by
  rw [streamId_eq] at hdistinct
  refine hdistinct.sublist (List.Sublist.map _ ?_)
  have haccepted : (os.filterMap Out.stream).Sublist
      ((os.filterMap Out.event).filterMap RelayEvent.inbound) := by
    rw [h.accepted]
    exact List.sublist_append_left _ _
  have hreported : ((os.filterMap Out.event).filterMap RelayEvent.inbound).Sublist
      ((os.filterMap Out.injected).filterMap RelayEvent.inbound) := by
    rw [h.reported, List.filterMap_append]
    exact List.sublist_append_left _ _
  exact haccepted.trans (hreported.trans (inbound_sublist _))

theorem run_conveyed (h : run (Machine.step node) (Machine.start X node mode) es = some (m, os)) :
    Conveyed es os m := by
  constructor
  · intro c d
    exact run_flow (fun m => m.pending c d) (fun es _ => es.filterMap (Event.negotiated c d))
      (List.filterMap (Out.substream c d)) rfl (by simp) rfl (by simp) (fun _ _ _ _ hs => by
        rw [filterMap_singleton]
        exact (Machine.step_change hs).pending_flow c d) h
  · exact run_flow Machine.waiting (fun _ os => os.filterMap Out.injected)
      (List.filterMap Out.event) rfl (by simp) rfl (by simp)
      (fun _ _ _ _ hs => (Machine.step_change hs).waiting_flow) h
  · exact run_flow (fun m => m.behaviour.relayInStreams)
      (fun _ os => (os.filterMap Out.event).filterMap RelayEvent.inbound)
      (List.filterMap Out.stream) rfl
      (by simp) rfl (by simp) (fun _ _ _ _ hs => (Machine.step_change hs).accepted_flow) h

/-- In every run, from the start of the node on. -/
theorem delivered_run (h : run (Machine.step node) (Machine.start X node mode) es = some (m, os)) :
    Delivered es os m := by
  have hdrawn : m.Drawn os := run_induction (P := fun _ m os => m.Drawn os)
    ⟨rfl, List.nodup_nil⟩ (fun _ _ _ _ _ _ hm hs => (Machine.step_change hs).drawn hm) h
  have hdistinct : (os.filterMap Out.streamId).Nodup := by
    rw [hdrawn.drawn]
    exact List.nodup_reverse.mpr hdrawn.nodup
  have hplaced : m.Placed os :=
    run_induction (P := fun _ m os => m.Placed os) (fun _ _ _ hw => absurd hw List.not_mem_nil)
      (fun _ _ _ _ _ _ hm hs => (Machine.step_change hs).placed hm) h
  have hconveyed := run_conveyed h
  exact ⟨hconveyed, hdistinct, hconveyed.once hdistinct, hplaced⟩

end Generic

theorem delivered_dialed : ∃ m os, run (Machine.step Sample.node)
    (Machine.start ℕ Sample.node .server) (Sample.comesIn ++ Sample.handedOn ++ Sample.dials) =
      some (m, os) ∧
    Delivered (Sample.comesIn ++ Sample.handedOn ++ Sample.dials) os m := by
  obtain ⟨m, os, hr⟩ := Sample.exists_dialed
  exact ⟨m, os, hr, delivered_run hr⟩

end WhiteNoise.Swarm
