import WhiteNoise.Swarm.Drain

/-! # What becomes of the dials

A call for a stream leads to one dial, and a dial to one substream at most. So
the streams that arrive in the queue of opened streams answer requests of the
calls, each a request for its peer, and the machine below the calls refines the
open environment of the queue.
-/

namespace WhiteNoise.OutStreams

open Process Point

/-! ## Requests and calls -/

/-- A call of `new_relay_stream` that has not spawned its task. -/
def Unasked (p : PeerId) (c : Call) : Prop := c.peerId = p ∧ c.point = .spawn

instance (p : PeerId) : DecidablePred (Unasked p) := fun _ => inferInstanceAs (Decidable (_ ∧ _))

/-- The streams to a peer that have arrived, are requested or will be requested. -/
def State.claimed (s : State) (p : PeerId) : ℕ :=
  (s.arrived.map (·.1.remotePeerId)).count p + (s.requests.map NodeNewStream.peerId).count p +
    s.tasks.count p + s.calls.countP (Unasked p)

/-- There is a call behind each of them. -/
def Thrifty (s : State) : Prop := ∀ p, s.claimed p ≤ s.calls.countP (·.peerId = p)

/-- One request less for its peer. -/
theorem count_eraseIdx {α : Type} [DecidableEq α] {l : List α} {j : ℕ} {a : α}
    (ha : l[j]? = some a) (b : α) :
    (l.eraseIdx j).count b + (if a = b then 1 else 0) = l.count b := by
  obtain ⟨hlt, rfl⟩ := List.getElem?_eq_some_iff.mp ha
  have hperm := (List.getElem_cons_eraseIdx_perm hlt).count_eq b
  rw [List.count_cons] at hperm
  simpa using hperm

theorem count_peers {rs : List NodeNewStream} {j : ℕ} {r : NodeNewStream} (hr : rs[j]? = some r)
    (p : PeerId) : ((rs.eraseIdx j).map NodeNewStream.peerId).count p +
      (if r.peerId = p then 1 else 0) = (rs.map NodeNewStream.peerId).count p := by
  have hmap : (rs.map NodeNewStream.peerId)[j]? = some r.peerId := by
    rw [List.getElem?_map, hr, Option.map_some]
  rw [← List.eraseIdx_map]
  exact count_eraseIdx hmap p

theorem countP_replaced {α : Type} {f : α → Bool} {l : List α} {i : ℕ} {a b : α}
    (ha : l[i]? = some a) :
    (l.set i b).countP f + (f a).toNat = l.countP f + (f b).toNat := by
  induction l generalizing i with
  | nil => cases ha
  | cons c l ih =>
    cases i with
    | zero =>
      obtain rfl := Option.some.inj ha
      rw [List.set_cons_zero, List.countP_cons, List.countP_cons, Bool.toNat, Bool.toNat]
      cases f c <;> cases f b <;> simp
    | succ i =>
      rw [List.set_cons_succ, List.countP_cons, List.countP_cons]
      have hi := ih ha
      omega

/-- Only the first operation of a call spawns a task, and it is never the next one again. -/
theorem next_spawned {p : PeerId} {queue queue' : List WrappedStream} {pt pt' : Point}
    {spawned : List PeerId} (h : pt.next p queue = some (pt', queue', spawned)) :
    pt' ≠ .spawn ∧ spawned = if pt = .spawn then [p] else [] := by
  have hwait (t : ℕ) : Point.wait t ≠ .spawn := by
    unfold Point.wait
    split <;> (intro h; cases h)
  have hscan (t len index : ℕ) : Point.scan t len index ≠ .spawn := by
    unfold Point.scan
    split <;> (intro h; cases h)
  cases pt with
  | spawn =>
    cases h
    exact ⟨hwait 0, rfl⟩
  | sleep t =>
    cases h
    exact ⟨hwait _, rfl⟩
  | readLen | push =>
    cases h
    exact ⟨hscan _ _ _, rfl⟩
  | pop t len index =>
    cases queue with
    | nil =>
      cases h
      exact ⟨hscan _ _ _, rfl⟩
    | cons w queue =>
      rw [next] at h
      split at h <;> cases h
      · exact ⟨Point.noConfusion, rfl⟩
      · exact ⟨Point.noConfusion, rfl⟩
  | returned => cases h

variable {s s' : State} {e : OutStreams.Event} {es : List OutStreams.Event} {o os : List Unit}

theorem Thrifty.step (h : Thrifty s) (hs : OutStreams.step s e = some (s', o)) : Thrifty s' := by
  intro p
  have hp := h p
  unfold State.claimed at hp ⊢
  rcases step_cases hs with ⟨q, pt, hpt, rfl⟩ | ⟨i, c, pt, queue, spawned, rfl, hc, hn, rfl⟩ |
    ⟨j, q, rfl, hq, rfl⟩ | ⟨j, w, r, rfl, hr, hpeer, hid, rfl⟩ | ⟨j, rfl, rfl⟩
  · have hnew : [(⟨q, pt⟩ : Call)].countP (Unasked p) ≤
        [(⟨q, pt⟩ : Call)].countP (·.peerId = p) :=
      List.countP_mono_left fun c _ hc => by simpa using (of_decide_eq_true hc).1
    dsimp only
    rw [List.countP_append, List.countP_append]
    omega
  · obtain ⟨hpt, rfl⟩ := next_spawned hn
    have hasked := countP_replaced (f := fun c => decide (Unasked p c)) (b := ⟨c.peerId, pt⟩) hc
    have hcalls := countP_replaced (f := fun c => decide (c.peerId = p)) (b := ⟨c.peerId, pt⟩) hc
    have hdone : decide (Unasked p ⟨c.peerId, pt⟩) = false := decide_eq_false fun hu => hpt hu.2
    have htask : ([c.peerId].count p : ℕ) = (decide (c.peerId = p)).toNat := by
      by_cases heq : c.peerId = p <;> simp [heq]
    rw [hdone] at hasked
    dsimp only at hcalls ⊢
    rw [List.count_append]
    split
    · next hspawn =>
      have hopen : decide (Unasked p c) = decide (c.peerId = p) := by
        simp [Unasked, hspawn]
      rw [hopen] at hasked
      simp only [Bool.toNat_false] at hasked
      omega
    · rw [List.count_nil]
      simp only [Bool.toNat_false] at hasked
      omega
  · have htasks := count_eraseIdx hq p
    simp only [List.map_append, List.map_cons, List.map_nil, List.count_append, List.count_cons,
      List.count_nil, beq_iff_eq]
    omega
  · have hrequests := count_peers hr p
    simp only [List.map_append, List.map_cons, List.map_nil, List.count_append, List.count_cons,
      List.count_nil, beq_iff_eq, hpeer]
    omega
  · have hle : ((s.requests.eraseIdx j).map NodeNewStream.peerId).count p ≤
        (s.requests.map NodeNewStream.peerId).count p :=
      ((List.eraseIdx_sublist _ _).map _).count_le p
    dsimp only
    omega

theorem thrifty_run (h : run OutStreams.step {} es = some (s, os)) : Thrifty s :=
  run_invariant (fun _ _ _ _ hi hs => hi.step hs) (fun _ => Nat.zero_le _) h

end WhiteNoise.OutStreams

namespace WhiteNoise.Swarm

open Wire Process OutStreams

section Generic

variable {X : Type}

/-! ## Dials on their way -/

def RelayHandlerInEvent.peer : RelayHandlerInEvent → PeerId
  | dial p => p

/-- The stream that the event brings for the calls. -/
def RelayEvent.outbound : RelayEvent → Option WrappedStream
  | relayOutbound w => some w
  | _ => none

def Out.outbound : Out X → Option WrappedStream
  | generated e => e.outbound
  | _ => none

/-- The dials that are with the connection, and the substreams that have come of them. -/
def Connection.dials (conn : Connection X) : ℕ :=
  conn.commands.length + conn.handler.events.length + conn.requested +
    (conn.pending .outbound).length

def Connection.dialsTo (p : PeerId) (conn : Connection X) : ℕ :=
  if conn.peer = p then conn.dials else 0

/-- A negotiated substream takes the place of a request, and nothing else makes a dial. -/
theorem Connection.step_dials {conn conn' : Connection X} {ce : ConnectionEvent X}
    (h : conn.step ce = some conn') : conn'.dials ≤ conn.dials := by
  cases ce with
  | inbound x =>
    simp only [step] at h
    split at h <;> cases h
    exact le_rfl
  | outbound x =>
    simp only [step] at h
    split at h
    · next hopen =>
      cases h
      simp only [dials, pending, RelayHandler.queue, RelayHandler.injectFullyNegotiatedOutbound,
        List.length_append, List.length_singleton]
      omega
    · cases h
  | dialUpgradeError =>
    simp only [step] at h
    split at h
    · cases h
      simp only [dials, RelayHandler.injectDialUpgradeError, pending]
      omega
    · cases h
  | command =>
    simp only [step] at h
    split at h
    · cases h
    · next x commands hx =>
      split at h
      · cases h
        simp only [dials, pending, RelayHandler.queue, RelayHandler.injectEvent, hx,
          List.length_append, List.length_cons, List.length_nil]
        omega
      · cases h
  | poll =>
    simp only [step] at h
    split at h
    · cases h
    · next e handler hp =>
      split at h
      · cases h
        rcases RelayHandler.poll_cases hp with ⟨x, he, hh⟩ | ⟨x, he, hh⟩ | ⟨x, he, -⟩
        · cases he
          simp [dials, pending, RelayHandler.queue, RelayHandlerOutEvent.stream, hh]
        · cases he
          simp [dials, pending, RelayHandler.queue, RelayHandlerOutEvent.stream, hh]
        · cases he
      · cases h
    · next handler hp =>
      split at h
      · cases h
        rcases RelayHandler.poll_cases hp with ⟨x, he, -⟩ | ⟨x, he, -⟩ | ⟨x, -, hh⟩
        · cases he
        · cases he
        · simp only [dials, pending, RelayHandler.queue, hh, List.length_append, List.length_cons]
          omega
      · cases h
  | closed =>
    cases h
    exact le_rfl

variable [Codec] [Crypto] {node : Node} {m m' : Machine X} {e : Event X} {o : List (Out X)}

namespace Machine

/-- The streams that wait to be reported to the calls. -/
def outbound (m : Machine X) : List WrappedStream := m.waiting.filterMap RelayEvent.outbound

/-- The dials to the peer that are under way, and the streams that have come of them. -/
def dials (m : Machine X) (p : PeerId) : ℕ :=
  (m.nodeRequests.filterMap NodeRequest.newStream).count p +
    (m.behaviour.relayBehaviour.diveEvents.map RelayHandlerInEvent.peer).count p +
    (m.connections.map (Connection.dialsTo p)).sum +
    (m.outbound.map WrappedStream.remotePeerId).count p

/-- The queue, the calls and the spawned tasks are those of the machine, for each dial under way
there is a request, and a stream that waits has not arrived yet. -/
structure Matches (m : Machine X) (s : State) : Prop where
  queue : s.relayOutStreams = m.behaviour.relayOutStreams
  calls : s.calls = m.calls.map StreamCall.call
  tasks : s.tasks = m.tasks
  dials : ∀ p, m.dials p ≤ (s.requests.map NodeNewStream.peerId).count p
  ids : ∀ n, (s.arrived.map (·.1.streamId)).count n +
    (m.outbound.map WrappedStream.streamId).count n ≤ if n ∈ m.drawn then 1 else 0

/-- A step of the machine is answered by the queue, and the streams that arrive are those that the
behaviour reports. -/
def Follows (m' : Machine X) (s : State) (o : List (Out X)) : Prop :=
  ∃ s', Steps OutStreams.step s [] s' ∧ m'.Matches s' ∧
    s'.arrived.map Prod.fst = s.arrived.map Prod.fst ++ o.filterMap Out.outbound

variable {s : State}

omit [Codec] in
/-- The queue and the calls are left alone. -/
theorem Matches.still (h : m.Matches s)
    (hqueue : m'.behaviour.relayOutStreams = m.behaviour.relayOutStreams)
    (hcalls : m'.calls.map StreamCall.call = m.calls.map StreamCall.call)
    (htasks : m'.tasks = m.tasks) (hdials : ∀ p, m'.dials p ≤ m.dials p)
    (hout : m'.outbound = m.outbound) (hdrawn : m'.drawn = m.drawn)
    (ho : o.filterMap Out.outbound = []) : m'.Follows s o := by
  refine ⟨s, .refl, ⟨hqueue ▸ h.queue, hcalls ▸ h.calls, htasks ▸ h.tasks, ?_, ?_⟩, ?_⟩
  · exact fun p => (hdials p).trans (h.dials p)
  · rw [hout, hdrawn]
    exact h.ids
  · rw [ho, List.append_nil]

omit [Codec] [Crypto] in
theorem dialsTo_set {l : List (Connection X)} {c : ℕ} {conn : Connection X}
    (conn' : Connection X) (hc : l[c]? = some conn) (p : PeerId) :
    ((l.set c conn').map (Connection.dialsTo p)).sum + conn.dialsTo p =
      (l.map (Connection.dialsTo p)).sum + conn'.dialsTo p :=
  sum_map_set hc

omit [Codec] in
theorem serve_follows (h : m.Matches s) {kbuckets : List (List MainNets.KadEntry)}
    {published : Bool} (hs : m.serve kbuckets published = some (m', o)) : m'.Follows s o := by
  unfold serve at hs
  split at hs
  · cases hs
  · next r nodeRequests hr =>
    split at hs
    · split at hs
      · cases hs
        refine h.still rfl rfl rfl (fun p => ?_) rfl rfl rfl
        simp only [dials, stop, outbound, waiting, List.filterMap_nil, List.count_nil]
        omega
      · next t ht =>
        cases hs
        refine h.still rfl rfl rfl (fun p => ?_) ?_ rfl ?_
        · have hdive := serve_diveEvents ht
          have hcount : (nodeRequests.filterMap NodeRequest.newStream).count p +
              (t.relay.diveEvents.map RelayHandlerInEvent.peer).count p =
              (m.nodeRequests.filterMap NodeRequest.newStream).count p +
              (m.behaviour.relayBehaviour.diveEvents.map RelayHandlerInEvent.peer).count p := by
            rw [hdive, hr, List.filterMap_cons]
            cases hp : r.newStream with
            | none => simp
            | some q =>
              simp only [Option.map_some, Option.toList_some, List.map_append, List.map_cons,
                List.map_nil, List.count_append, List.count_cons, List.count_nil,
                RelayHandlerInEvent.peer]
              omega
          have hout : t.relay.waiting = m.waiting := serve_waiting ht
          simp only [dials, outbound, waiting] at hout ⊢
          rw [hout]
          omega
        · rw [outbound, outbound, waiting, waiting, serve_waiting ht]
        · rw [List.filterMap_map]
          exact List.filterMap_none _
    · cases hs

theorem connection_follows (h : m.Matches s) {c : ℕ} {ce : ConnectionEvent X}
    (hs : m.step node (.connection c ce) = some (m', o)) : m'.Follows s o := by
  simp only [step] at hs
  split at hs
  · cases hs
  · next conn hc =>
    split at hs
    · cases hs
    · next conn' hconn =>
      cases hs
      refine h.still rfl rfl rfl (fun p => ?_) rfl rfl rfl
      have hsum := dialsTo_set conn' hc p
      have hle : conn'.dialsTo p ≤ conn.dialsTo p := by
        rw [Connection.dialsTo, Connection.dialsTo, Connection.step_peer hconn]
        split
        · exact Connection.step_dials hconn
        · exact le_rfl
      simp only [dials, outbound, waiting]
      omega

omit [Codec] [Crypto] in
/-- A substream that leaves the connection takes its dial along. -/
theorem dialsTo_notice {conn : Connection X} {x : RelayHandlerOutEvent X}
    {notices : List (RelayHandlerOutEvent X)} (hx : conn.notices = x :: notices) (id : ℕ)
    (p : PeerId) :
    conn.dialsTo p = Connection.dialsTo p { conn with notices } +
      ((Relay.wrap ⟨conn.peer, id⟩ x).outbound.toList.map WrappedStream.remotePeerId).count p := by
  cases x with
  | relayInbound y =>
    simp [Connection.dialsTo, Connection.dials, Connection.pending, hx, List.filterMap_cons,
      RelayHandlerOutEvent.stream, Relay.wrap, RelayEvent.outbound]
  | relayOutbound y =>
    by_cases hp : conn.peer = p
    · simp [Connection.dialsTo, Connection.dials, Connection.pending, hx,
        RelayHandlerOutEvent.stream, Relay.wrap, RelayEvent.outbound, hp]
      omega
    · simp [Connection.dialsTo, Relay.wrap, RelayEvent.outbound, hp]

omit [Codec] [Crypto] in
theorem outbound_wrap_ids (w : WrappedStream) (x : RelayHandlerOutEvent X) (n : ℕ) :
    ((Relay.wrap w x).outbound.toList.map WrappedStream.streamId).count n ≤
      if n = w.streamId then 1 else 0 := by
  cases x with
  | relayInbound y => exact Nat.zero_le _
  | relayOutbound y =>
    by_cases hn : n = w.streamId
    · simp [Relay.wrap, RelayEvent.outbound, hn]
    · change [w.streamId].count n ≤ _
      rw [List.count_eq_zero_of_not_mem (by simpa using hn)]
      exact Nat.zero_le _

omit [Codec] in
/-- A substream that is wrapped is under way as before, and its identifier is new. -/
theorem injectEvent_follows (h : m.Matches s) {c id : ℕ}
    (hs : m.injectEvent c id = some (m', o)) : m'.Follows s o := by
  unfold injectEvent at hs
  split at hs
  · cases hs
  · next conn hc =>
    split at hs
    · cases hs
    · next x notices hx =>
      split at hs
      · next hid =>
        cases hs
        have hwaiting := Relay.waiting_injectEvent conn.peer id x m.behaviour.relayBehaviour
        refine ⟨s, .refl, ⟨h.queue, h.calls, h.tasks, fun p => ?_, fun n => ?_⟩, ?_⟩
        · have hle := h.dials p
          have hsum := dialsTo_set { conn with notices } hc p
          have hnotice := dialsTo_notice hx id p
          have hdive : (m.behaviour.relayBehaviour.injectEvent conn.peer id x).diveEvents =
            m.behaviour.relayBehaviour.diveEvents := rfl
          simp only [dials, outbound, waiting, hwaiting, hdive, List.filterMap_append,
            filterMap_singleton, List.map_append, List.count_append] at hle ⊢
          omega
        · have hn := h.ids n
          have hnew := outbound_wrap_ids ⟨conn.peer, id⟩ x n
          simp only [outbound, waiting, hwaiting, List.filterMap_append, filterMap_singleton,
            List.map_append, List.count_append, List.mem_cons] at hn hnew ⊢
          by_cases heq : n = id
          · subst heq
            rw [if_neg hid.2] at hn
            simp only [true_or, if_true] at hnew ⊢
            omega
          · simp only [heq, false_or, if_false] at hnew ⊢
            omega
        · exact (List.append_nil _).symm
      · cases hs

omit [Codec] in
/-- A stream for the calls answers a request for its peer. -/
theorem opened_follows (h : m.Matches s) {w : WrappedStream} {relay : Relay}
    (hwaiting : m.waiting = .relayOutbound w :: relay.waiting)
    (hdive : relay.diveEvents = m.behaviour.relayBehaviour.diveEvents) :
    Follows { m with behaviour := { m.behaviour with
      relayBehaviour := relay
      relayOutStreams := m.behaviour.relayOutStreams ++ [w] } } s
      [(.generated (.relayOutbound w) : Out X)] := by
  have hout : m.outbound = w :: relay.waiting.filterMap RelayEvent.outbound := by
    rw [outbound, hwaiting]
    rfl
  obtain ⟨r, hr, hpeer⟩ : ∃ r ∈ s.requests, r.peerId = w.remotePeerId := by
    have hpos : 0 < (s.requests.map NodeNewStream.peerId).count w.remotePeerId := by
      refine lt_of_lt_of_le ?_ (h.dials w.remotePeerId)
      rw [dials, hout, List.map_cons, List.count_cons_self]
      omega
    exact List.mem_map.mp (List.count_pos_iff.mp hpos)
  obtain ⟨j, hj⟩ := List.mem_iff_getElem?.mp hr
  have hfresh : ∀ a ∈ s.arrived, a.1.streamId ≠ w.streamId := by
    intro a ha heq
    have hids := h.ids w.streamId
    have hcount : 0 < (s.arrived.map (·.1.streamId)).count w.streamId :=
      List.count_pos_iff.mpr (List.mem_map.mpr ⟨a, ha, heq⟩)
    rw [hout, List.map_cons, List.count_cons_self] at hids
    split at hids <;> omega
  refine ⟨_, .single (OutStreams.step_opened hj hpeer.symm hfresh), ⟨?_, h.calls, h.tasks, fun p => ?_,
    fun n => ?_⟩, ?_⟩
  · exact congrArg (· ++ [w]) h.queue
  · have hle := h.dials p
    have herase := count_peers hj p
    rw [dials, hout, List.map_cons, List.count_cons, hpeer.symm] at hle
    simp only [dials, outbound, waiting, hdive]
    simp only [beq_iff_eq] at hle
    omega
  · have hids := h.ids n
    rw [hout, List.map_cons, List.count_cons] at hids
    simp only [outbound, waiting, List.map_append, List.map_cons, List.map_nil, List.count_append,
      List.count_cons, List.count_nil]
    omega
  · simp [Out.outbound, RelayEvent.outbound]

omit [Codec] in
/-- Another event of the behaviour, also if it is the last one. -/
theorem other_follows (h : m.Matches s) {x : RelayEvent}
    (hwaiting : m.waiting = x :: m'.waiting) (hx : x.outbound = none)
    (hdive : m'.behaviour.relayBehaviour.diveEvents = m.behaviour.relayBehaviour.diveEvents)
    (hqueue : m'.behaviour.relayOutStreams = m.behaviour.relayOutStreams)
    (hcalls : m'.calls = m.calls) (htasks : m'.tasks = m.tasks)
    (hconnections : m'.connections = m.connections) (hdrawn : m'.drawn = m.drawn)
    (hrequests : m'.nodeRequests = m.nodeRequests ∨ m'.nodeRequests = []) :
    m'.Follows s [.generated x] := by
  have hout : m'.outbound = m.outbound := by
    rw [outbound, outbound, hwaiting, List.filterMap_cons_none hx]
  refine h.still hqueue (by rw [hcalls]) htasks (fun p => ?_) hout hdrawn ?_
  · rw [dials, dials, hout, hdive, hconnections]
    rcases hrequests with hsame | hnil
    · rw [hsame]
    · rw [hnil, List.filterMap_nil, List.count_nil]
      omega
  · rw [filterMap_singleton]
    exact congrArg Option.toList hx

omit [Codec] in
theorem poll_follows (h : m.Matches s) {target : Option ℕ}
    (hs : m.poll target = some (m', o)) : m'.Follows s o := by
  unfold poll at hs
  split at hs
  · split at hs
    · cases hs
    · next x relay hp =>
      obtain ⟨x', hx, hwaiting, hdive, -⟩ | ⟨p, hx, -⟩ := Relay.poll_cases hp
      · cases hx
        dsimp only at hs
        split at hs
        · next hfailed =>
          cases hs
          have hout : x.outbound = none := by
            cases x with
            | disconnect p => rfl
            | _ => simp [RelayEvent.receiver] at hfailed
          exact other_follows h hwaiting hout hdive rfl rfl rfl rfl rfl (Or.inr rfl)
        · cases hs
          cases x with
          | relayOutbound w => exact opened_follows h hwaiting hdive
          | relayInbound w =>
            exact other_follows h hwaiting rfl hdive rfl rfl rfl rfl rfl (Or.inl rfl)
          | disconnect p =>
            exact other_follows h hwaiting rfl hdive rfl rfl rfl rfl rfl (Or.inl rfl)
      · cases hx
    · next p x relay hp =>
      obtain ⟨x', hx, -⟩ | ⟨p', hx, -, hrelay⟩ := Relay.poll_cases hp
      · cases hx
      · cases hx
        have hwaiting : relay.waiting = m.waiting := by
          rw [waiting, hrelay]
          rfl
        have hdive (q : PeerId) :
            (m.behaviour.relayBehaviour.diveEvents.map RelayHandlerInEvent.peer).count q =
              (relay.diveEvents.map RelayHandlerInEvent.peer).count q +
                if p = q then 1 else 0 := by
          rw [hrelay, List.map_cons, List.count_cons]
          simp [RelayHandlerInEvent.peer]
        split at hs
        · cases hs
          refine h.still rfl rfl rfl (fun q => ?_) ?_ rfl rfl
          · have hq := hdive q
            simp only [dials, outbound, waiting] at hwaiting ⊢
            rw [hwaiting]
            omega
          · rw [outbound, outbound, waiting, hwaiting]
        · split at hs
          · cases hs
          · next c conn hc =>
            split at hs
            · next hpeer =>
              cases hs
              refine h.still rfl rfl rfl (fun q => ?_) ?_ rfl rfl
              · have hq := hdive q
                have hsum := dialsTo_set
                  { conn with commands := conn.commands ++ [.dial p] } hc q
                have hcommand : Connection.dialsTo q
                    { conn with commands := conn.commands ++ [.dial p] } =
                      conn.dialsTo q + if p = q then 1 else 0 := by
                  simp only [Connection.dialsTo, hpeer]
                  split
                  · simp only [Connection.dials, Connection.pending, List.length_append,
                      List.length_singleton]
                    omega
                  · rfl
                simp only [dials, outbound, waiting] at hwaiting ⊢
                rw [hwaiting]
                omega
              · rw [outbound, outbound, waiting, hwaiting]
            · cases hs
  · cases hs

/-! ## The operations of a call -/

theorem newRelayStream_follows (h : m.Matches s) {i : ℕ}
    (hs : m.step node (.newRelayStream i) = some (m', o)) : m'.Follows s o := by
  simp only [step] at hs
  split at hs
  · next p k ht =>
    split at hs
    · cases hs
    · cases hs
      have hcall : OutStreams.step s (.call p) =
        some ({ s with calls := s.calls ++ [⟨p, .spawn⟩] }, []) := rfl
      refine ⟨_, .single hcall, ⟨h.queue, ?_, h.tasks, h.dials, h.ids⟩, (List.append_nil _).symm⟩
      rw [h.calls, List.map_append]
      rfl
  · cases hs

theorem turn_follows (h : m.Matches s) {j : ℕ} (hs : m.step node (.turn j) = some (m', o)) :
    m'.Follows s o := by
  simp only [step] at hs
  split at hs
  · cases hs
  · next c hj =>
    split at hs
    · cases hs
    · next point queue spawned hn =>
      cases hs
      have hc : s.calls[j]? = some c.call := by rw [h.calls, List.getElem?_map, hj, Option.map_some]
      rw [← h.queue] at hn
      refine ⟨_, .single (step_turn hc hn), ⟨rfl, ?_, ?_, h.dials, h.ids⟩,
        (List.append_nil _).symm⟩
      · dsimp only
        rw [h.calls, List.map_set]
      · exact congrArg (· ++ spawned) h.tasks

theorem send_follows (h : m.Matches s) {j : ℕ} (hs : m.step node (.send j) = some (m', o)) :
    m'.Follows s o := by
  simp only [step] at hs
  split at hs
  · cases hs
  · next p hj =>
    cases hs
    have hsend : OutStreams.step s (.send j) = some ({ s with
        tasks := s.tasks.eraseIdx j
        requests := s.requests ++ [⟨p, s.calls.length⟩] }, []) := by
      rw [← h.tasks] at hj
      simp only [OutStreams.step, hj]
    refine ⟨_, .single hsend, ⟨h.queue, h.calls, ?_, fun q => ?_, h.ids⟩,
      (List.append_nil _).symm⟩
    · exact congrArg (List.eraseIdx · j) h.tasks
    · have hle := h.dials q
      have hcount : ((if m.alive then m.nodeRequests ++ [.newStreamRequest p]
            else m.nodeRequests).filterMap NodeRequest.newStream).count q ≤
          (m.nodeRequests.filterMap NodeRequest.newStream).count q + if p = q then 1 else 0 := by
        split
        · rw [List.filterMap_append, filterMap_singleton, List.count_append]
          simp [NodeRequest.newStream, List.count_cons]
        · exact Nat.le_add_right _ _
      simp only [dials, outbound, waiting, List.map_append, List.map_cons, List.map_nil,
        List.count_append, List.count_cons, List.count_nil, beq_iff_eq] at hle ⊢
      omega

omit [Codec] in
/-- Requests of another kind make no dial. -/
theorem Matches.asks (h : m.Matches s) {r : List NodeRequest}
    (hr : r.filterMap NodeRequest.newStream = [])
    (hrequests : m'.nodeRequests = m.nodeRequests ++ r) (hbehaviour : m'.behaviour = m.behaviour)
    (hcalls : m'.calls.map StreamCall.call = m.calls.map StreamCall.call)
    (htasks : m'.tasks = m.tasks) (hconnections : m'.connections = m.connections)
    (hdrawn : m'.drawn = m.drawn) (ho : o.filterMap Out.outbound = []) : m'.Follows s o := by
  refine h.still (by rw [hbehaviour]) hcalls htasks (fun p => ?_)
    (by rw [outbound, outbound, waiting, waiting, hbehaviour]) hdrawn ho
  rw [Machine.dials, Machine.dials, outbound, outbound, waiting, waiting, hbehaviour, hrequests,
    hconnections, List.filterMap_append, hr, List.append_nil]

omit [Codec] [Crypto] in
/-- What replaces the element looks the same. -/
theorem map_set_same {α β : Type} {f : α → β} {l : List α} {j : ℕ} {a b : α}
    (ha : l[j]? = some a) (hf : f b = f a) : (l.set j b).map f = l.map f := by
  obtain ⟨hlt, rfl⟩ := List.getElem?_eq_some_iff.mp ha
  rw [List.map_set, hf, ← List.getElem_map f (h := by simpa using hlt), List.set_getElem_self]

omit [Codec] [Crypto] in
theorem outbound_map_node (os : List Output) :
    (os.map (Out.node : Output → Out X)).filterMap Out.outbound = [] := by
  rw [List.filterMap_map]
  exact List.filterMap_none _

omit [Codec] in
theorem report_follows (h : m.Matches s) {loop : Option Task} {state : Shared}
    (hs : m.report loop state = some (m', o)) : m'.Follows s o := by
  unfold report at hs
  split at hs
  · split at hs
    · cases hs
      refine h.still rfl rfl rfl (fun p => ?_) rfl rfl rfl
      simp only [dials, stop, outbound, waiting, List.filterMap_nil, List.count_nil]
      omega
    · cases hs
      exact h.asks rfl (List.append_nil _).symm rfl rfl rfl rfl rfl rfl
  · cases hs

theorem step_follows (h : m.Matches s) (hs : m.step node e = some (m', o)) : m'.Follows s o := by
  cases e with
  | thread i c =>
    simp only [step, thread] at hs
    split at hs
    · cases hs
    · next t ht =>
      split at hs
      · cases hs
      · split at hs
        · cases hs
        · cases hs
          refine h.asks (r := ((sends t).map .message).toList) ?_ rfl rfl rfl rfl rfl rfl
            (outbound_map_node _)
          cases sends t <;> rfl
  | newRelayStream i => exact newRelayStream_follows h hs
  | turn j => exact turn_follows h hs
  | send j => exact send_follows h hs
  | resume j =>
    simp only [step, resume] at hs
    split at hs
    · next i p relayStream hj =>
      have hcalls : (m.calls.set j ⟨i, ⟨p, .returned relayStream⟩, true⟩).map StreamCall.call =
          m.calls.map StreamCall.call := map_set_same hj rfl
      split at hs
      · split at hs
        · split at hs
          · cases hs
            exact h.asks (r := []) rfl (List.append_nil _).symm rfl hcalls rfl rfl rfl rfl
          · cases hs
            exact h.asks (r := []) rfl (List.append_nil _).symm rfl hcalls rfl rfl rfl rfl
        · cases hs
      · cases hs
    · cases hs
  | ask i =>
    simp only [step, ask] at hs
    split at hs
    · cases hs
    · split at hs
      · cases hs
        exact h.asks (r := [_]) rfl rfl rfl rfl rfl rfl rfl rfl
      · cases hs
        exact h.asks (r := [_]) rfl rfl rfl rfl rfl rfl rfl rfl
      · cases hs
  | answered j =>
    obtain ⟨q, a, t, pool, os, -, -, -, -, -, rfl, rfl⟩ := answered_cases hs
    exact h.asks (r := []) rfl (List.append_nil _).symm rfl rfl rfl rfl rfl (outbound_map_node _)
  | addPeerAddresses peer addrs =>
    simp only [step] at hs
    split at hs
    · cases hs
      exact h.asks (r := [_]) rfl rfl rfl rfl rfl rfl rfl rfl
    · cases hs
  | accept =>
    simp only [step, accept] at hs
    split at hs
    · cases hs
    · cases hs
      exact h.still rfl rfl rfl (fun _ => le_rfl) rfl rfl rfl
  | call t =>
    cases hs
    exact h.asks (r := []) rfl (List.append_nil _).symm rfl rfl rfl rfl rfl rfl
  | serve kbuckets published => exact serve_follows h hs
  | poll target => exact poll_follows h hs
  | injectEvent c id => exact injectEvent_follows h hs
  | disconnected p =>
    simp only [step] at hs
    split at hs
    · cases hs
      have hout := Relay.waiting_injectDisconnected p m.behaviour.relayBehaviour
      have hsame : (m.behaviour.relayBehaviour.injectDisconnected p).waiting.filterMap
          RelayEvent.outbound = m.outbound := by
        rw [hout, List.filterMap_append]
        exact List.append_nil _
      refine h.still rfl rfl rfl (fun q => ?_) hsame rfl rfl
      rw [dials, dials]
      exact le_of_eq (congrArg (fun l => _ + (l.map WrappedStream.remotePeerId).count q) hsame)
    · cases hs
  | proxy e => exact report_follows h hs
  | cmd e => exact report_follows h hs
  | ack e => exact report_follows h hs
  | gossipsub e => exact report_follows h hs
  | established p =>
    cases hs
    refine h.still rfl rfl rfl (fun q => ?_) rfl rfl rfl
    have hnew : Connection.dialsTo q ({ peer := p } : Connection X) = 0 := by
      rw [Connection.dialsTo]
      exact ite_self 0
    rw [dials, dials, List.map_append, List.map_singleton, List.sum_append, List.sum_singleton,
      hnew]
    exact le_rfl
  | connection c ce => exact connection_follows h hs
  | frame id res =>
    cases hs
    exact h.asks (r := []) rfl (List.append_nil _).symm rfl rfl rfl rfl rfl rfl

theorem start_matches (X : Type) (node : Node) (mode : RunMode) :
    (start X node mode).Matches {} where
  queue := rfl
  calls := rfl
  tasks := rfl
  dials _ := Nat.zero_le _
  ids _ := Nat.zero_le _

/-- The machine below the calls is one of the environments of the queue, in every run. -/
theorem run_follows {mode : RunMode} {es : List (Event X)} {os : List (Out X)}
    (h : run (step node) (start X node mode) es = some (m, os)) :
    ∃ s, Steps OutStreams.step {} [] s ∧ m.Matches s ∧
      s.arrived.map Prod.fst = os.filterMap Out.outbound := by
  refine run_induction (P := fun _ m os => ∃ s, Steps OutStreams.step {} [] s ∧ m.Matches s ∧
    s.arrived.map Prod.fst = os.filterMap Out.outbound) ⟨{}, .refl, start_matches X node mode, rfl⟩
    ?_ h
  rintro es m os e m' o ⟨s, hsteps, hm, harrived⟩ he
  obtain ⟨s', hsteps', hm', harrived'⟩ := step_follows hm he
  refine ⟨s', hsteps.trans hsteps', hm', ?_⟩
  rw [harrived', harrived, List.filterMap_append]

/-- The dials to the peer of which no stream has been reported, and those that the calls have not
asked for yet. -/
def owed (m : Machine X) (p : PeerId) : ℕ :=
  m.dials p + m.tasks.count p +
    (m.calls.map StreamCall.call).countP (Unasked p)

end Machine

/-- What the calls of a node have got of its swarm. -/
structure Supplied (os : List (Out X)) (m : Machine X) : Prop where
  /-- each stream that was reported for them is in the queue or with one call -/
  perm : (os.filterMap Out.outbound).Perm
    (m.behaviour.relayOutStreams ++ m.calls.flatMap (·.call.point.held))
  distinct : ((os.filterMap Out.outbound).map WrappedStream.streamId).Nodup
  peer : ∀ c ∈ m.calls, ∀ w, c.call.point = .returned (some w) →
    w.remotePeerId = c.call.peerId
  /-- a call leads to one stream at most -/
  dials : ∀ p, ((os.filterMap Out.outbound).map WrappedStream.remotePeerId).count p + m.owed p ≤
    (m.calls.map StreamCall.call).countP (·.peerId = p)

/-- In every run from the start of a node, whatever happens to its connections. -/
theorem supplied_run {mode : RunMode} {es : List (Event X)} {os : List (Out X)}
    (h : run (Machine.step node) (Machine.start X node mode) es = some (m, os)) :
    Supplied os m := by
  obtain ⟨s, hsteps, hm, harrived⟩ := Machine.run_follows h
  obtain ⟨fs, hrun⟩ := steps_iff.mp hsteps
  have hconserved := conserved_run hrun
  constructor
  · rw [← harrived, ← hm.queue, ← List.flatMap_map StreamCall.call (·.point.held), ← hm.calls]
    exact hconserved.perm
  · rw [← harrived, List.map_map]
    exact hconserved.nodup
  · intro c hc w hw
    have hcall : c.call ∈ s.calls := hm.calls ▸ List.mem_map_of_mem hc
    exact (hconserved.right c.call hcall).result w (by rw [hw]; rfl)
  · intro p
    have hthrifty := thrifty_run hrun p
    have hdials := hm.dials p
    unfold State.claimed at hthrifty
    rw [← harrived, List.map_map, Machine.owed, ← hm.calls, ← hm.tasks]
    simp only [Function.comp_def]
    omega

end Generic

theorem supplied_dialed : ∃ m os, run (Machine.step Sample.node)
    (Machine.start ℕ Sample.node .server) (Sample.comesIn ++ Sample.handedOn ++ Sample.dials) =
      some (m, os) ∧ Supplied os m := by
  obtain ⟨m, os, hr⟩ := Sample.exists_dialed
  exact ⟨m, os, hr, supplied_run hr⟩

end WhiteNoise.Swarm
