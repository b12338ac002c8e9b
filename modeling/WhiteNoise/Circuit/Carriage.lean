import WhiteNoise.Circuit.Bystander

/-! # The handlers of a path carry its payloads

The handler of a stream of the path takes one payload in, pads and identifies
it anew and gives it out on the other side; at an end of the path it puts it
into the circuit. A node whose other threads are bystanders hands on what comes
in, in order, whatever the turns.
-/

namespace WhiteNoise

open Wire Process

variable [Codec] [Crypto]

namespace Place

variable {place : Place} {s s' : Shared} {d : Direction} {w v : WrappedStream} {b : Bytes}

/-! ## One operation of a handler -/

theorem moves_read (h : place.Settled s) (hw : place.source d = some w) {c : Choice}
    {x : Reply Shared Task Output ReadResult} (hx : Shared.reply (.read w) c s = some x) :
    ∃ b, load place.sid x.answer = some b ∧
      place.Moves (some d) s x.state x.outputs x.spawned [b] [] := by
  have hset := h.reply hx
  obtain ⟨res, q, hq, rfl⟩ := Shared.dequeue_eq_some hx
  have harrives := h.inbox w.streamId res (hq ▸ List.mem_cons_self)
  rw [Arrives, if_pos (place.source_guards hw)] at harrives
  obtain ⟨b, hb⟩ := Option.isSome_iff_exists.mp harrives
  refine ⟨b, hb, hset, fun _ _ _ _ => rfl, fun e => ?_, fun e => ?_, List.forall_mem_nil _,
    List.forall_mem_nil _, fun hd => absurd hd (Option.some_ne_none d)⟩
  · obtain rfl | rfl := Direction.eq_or_flip d e
    · simp [inlet, hw, hq, hb]
    · have hne : some d ≠ some d.flip := by simpa using d.flip_ne.symm
      rw [if_neg hne, List.nil_append]
      simp only [inlet]
      cases hv : place.source d.flip with
      | none => rfl
      | some v =>
        have hwv := place.sources_ne d w v hw hv
        simp only [Function.update_of_ne hwv.symm]
  · have hsame : place.arrived e { s with inbox := Function.update s.inbox w.streamId q } =
        place.arrived e s := arrived_congr (fun _ _ => rfl) e
    simp [emitted, written, hsame]

theorem moves_write (h : place.Settled s) (hv : place.target d = some v)
    (hb : payloadIn place.sid b = some c) :
    place.Moves (some d) s s [.write v b] [] [] [c] where
  settled := h
  transports _ _ _ _ := rfl
  inlet e := by simp
  outlet e := by
    obtain rfl | rfl := Direction.eq_or_flip d e
    · simp [emitted, written, hv, hb, arrived]
    · have hne : some d ≠ some d.flip := by simpa using d.flip_ne.symm
      have hve : place.target d.flip ≠ some v := fun he => place.targets_ne d v v hv he rfl
      simp [emitted, written, hve, hne]
  outputs o ho := by
    obtain rfl := List.mem_singleton.mp ho
    rw [Permits, if_pos (place.target_guards hv), hb, Option.isSome_some]
  spawned := List.forall_mem_nil _
  idle hd := absurd hd (Option.some_ne_none d)

/-- Into the circuit at the end of the direction -/
theorem moves_push (h : place.Settled s) (hv : place.target d = none) {conn : CircuitConn}
    (hc : place.circuit = some conn) :
    place.Moves (some d) s
      { s with
        channels := Function.update s.channels conn.inChannel (s.channels conn.inChannel ++ [b]) }
      [] [] [] [b] where
  settled := { h with }
  transports _ _ _ _ := rfl
  inlet e := by simp [inlet]
  outlet e := by
    obtain rfl | rfl := Direction.eq_or_flip d e
    · simp [emitted, written, arrived, hv, hc]
    · have hne : some d ≠ some d.flip := by simpa using d.flip_ne.symm
      obtain ⟨u, hu⟩ := Option.ne_none_iff_exists'.mp (place.target_or d hv)
      simp [emitted, written, arrived, hu, hne]
  outputs := List.forall_mem_nil _
  spawned := List.forall_mem_nil _
  idle hd := absurd hd (Option.some_ne_none d)

/-! ## A handler -/

/-- The program carries payloads in the direction. -/
abbrev Conveys {α : Type} (place : Place) (d : Direction) (Q : List Bytes → α → Prop)
    (p : Async α) (held : List Bytes) : Prop :=
  Semantics.Carries (nodeSemantics place.node) (place.contract (some d)) Q p held

variable {α : Type} {Q : List Bytes → α → Prop} {held : List Bytes}

/-- A look at the maps -/
theorem conveys_read {β : Type} {g : Shared → β} {k : β → Async α}
    (h : ∀ s, place.Settled s → place.Conveys d Q (k (g s)) held) :
    place.Conveys d Q (Prog.read g >>= k) held :=
  Semantics.Carries.idle (fun _ hs => hs.moves_refl) h

/-- A frame with the payload is padded, identified and written. -/
theorem conveys_writeRelayArc (hv : place.target d = some v) {relay : Relay}
    (hb : relay.payload place.sid = some b) :
    place.Conveys d (fun held _ => held = []) (writeRelayArc v relay) [b] := by
  have hbound : 0 < confusionBound relay := Nat.lt_of_lt_of_le (by decide) (Nat.le_add_left _ _)
  refine ⟨fun e he => hbound, fun s c x hs _ hx => ⟨[], [], [b], rfl, ?_, ?_⟩⟩
  · exact reply_moves (a := .randomBelow _) hs trivial hx
  refine ⟨fun e he => trivial, fun s c y hs _ hy => ⟨[], [b], [], rfl, ?_, rfl⟩⟩
  cases hy
  exact moves_write hs hv ((payloadIn_encode _ relay _ _).trans hb)

/-- The other one of the two streams -/
theorem conveys_forwardRelay {session : Session} (hj : session.Joins w v)
    (hv : place.target d = some v) {relay : Relay} (hb : relay.payload place.sid = some b) :
    place.Conveys d (fun held _ => held = []) (forwardRelay session w.streamId relay) [b] := by
  have hwrite : place.Conveys d (fun held _ => held = []) (do
      let _ ← writeRelayArc v relay) [b] :=
    (conveys_writeRelayArc hv hb).mono (fun _ _ h => h) |>.bind
  unfold forwardRelay
  obtain hp | hp := hj.pair
  · simpa only [hp, Prog.unwrap_some, Prog.ret_bind, if_true] using hwrite
  · simpa only [hp, Prog.unwrap_some, Prog.ret_bind, if_neg hj.distinct.symm, if_true] using hwrite

/-- What the handler of the stream goes on with: empty hands and the same stream. -/
def Goes (w : WrappedStream) (held : List Bytes) (o : Option Task) : Prop :=
  held = [] ∧ ∃ current, o = some (.relayEventHandler w current)

omit [Crypto] in
theorem load_eq_some {sid : String} {res : ReadResult} (h : load sid res = some b) :
    ∃ msg relay, res = .ok msg ∧ Codec.decode msg = some relay ∧ Relay.payload sid relay = some b := by
  cases res with
  | error e => cases h
  | ok msg =>
    obtain ⟨relay, hdec, hb⟩ := Option.bind_eq_some_iff.mp h
    exact ⟨msg, relay, rfl, hdec, hb⟩

/-- The payload goes to the other stream or into the circuit. -/
theorem conveys_handleRelayMsg (hw : place.source d = some w) {relay : Relay}
    (hb : relay.payload place.sid = some b) :
    place.Conveys d (fun held _ => held = []) (handleRelayMsg w relay) [b] := by
  obtain ⟨-, hdec⟩ := Relay.payload_eq_some hb
  simp only [handleRelayMsg, hdec, Async.getSession]
  refine conveys_read fun s hs => ?_
  rw [hs.session]
  dsimp only
  cases hv : place.target d with
  | none =>
    obtain ⟨hrole, hconn⟩ := place.ends d w hw hv
    rw [if_pos hrole]
    intro s hs
    refine ⟨[], [b], [], rfl, ?_, rfl⟩
    obtain ⟨conn, hc⟩ := Option.isSome_iff_exists.mp hconn
    have hcs : s.circuitMap place.sid = some conn := hs.circuit.trans hc
    simp only [hcs]
    exact moves_push hs hv hc
  | some v =>
    have hj := place.joins d w v hw hv
    have hready : place.session.ready := by
      obtain hp | hp := hj.pair <;> simp [Session.ready, hp]
    rw [if_neg (not_or.mpr ⟨hj.answer, hj.caller⟩), if_pos hready]
    exact conveys_forwardRelay hj hv hb

/-- One turn of the loop on a stream of the path -/
theorem conveys_relayEventHandler (hw : place.source d = some w) (current : Option String) :
    place.Conveys d (Goes w) (relayEventHandler w current) [] := by
  rw [relayEventHandler_eq]
  refine ⟨fun e he => ?_, fun s c x hs _ hx => ?_⟩
  · obtain rfl := Option.some.inj he
    exact ⟨hw, rfl⟩
  obtain ⟨b, hload, hmoves⟩ := moves_read (c := c) hs hw hx
  refine ⟨[b], [], [b], rfl, hmoves, ?_⟩
  obtain ⟨msg, relay, hres, hdec, hb⟩ := load_eq_some hload
  rw [hres]
  simp only [hdec, Prog.unwrap_some, Prog.ret_bind, relayEvent_data (Relay.payload_eq_some hb).1,
    bind_assoc]
  refine Semantics.Carries.bind ((conveys_handleRelayMsg hw hb).mono ?_)
  rintro held _ rfl
  exact ⟨rfl, current, rfl⟩

theorem conveys_body (hw : place.source d = some w) {held : List Bytes} {t : Task}
    (h : Goes w held (some t)) : place.Conveys d (Goes w) (t.body place.node) held := by
  obtain ⟨rfl, current, ht⟩ := h
  obtain rfl := Option.some.inj ht
  exact conveys_relayEventHandler hw current

/-! ## A node of the path -/

/-- What a thread of the node does, by its role: it conveys in a direction or stands by. -/
def Runs (place : Place) (held : Direction → List Bytes) : Option Direction → Thread → Prop
  | none, t => place.Bystands place.Next t
  | some d, t => ∃ w, place.source d = some w ∧ place.Conveys d (Goes w) t (held d)

/-- The threads of a node of the path: at most one handler in each direction, and bystanders. -/
structure Staffed (place : Place) (role : ℕ → Option Direction) (held : Direction → List Bytes)
    (p : NodePool) : Prop where
  settled : place.Settled p.state
  present : ∀ i d, role i = some d → i < p.threads.length
  single : ∀ i j d, role i = some d → role j = some d → i = j
  runs : ∀ i t, p.threads[i]? = some t → place.Runs held (role i) t

/-- What the node holds in each direction is what it held, less what has left it. -/
structure Passes (place : Place) (s s' : Shared) (os : List Output)
    (held held' : Direction → List Bytes) : Prop where
  content : ∀ d, place.emitted d os ++ place.arrived d s' ++ held' d ++ place.inlet d s' =
    place.arrived d s ++ held d ++ place.inlet d s
  transports : ∀ mine ref, place.circuit = some mine → mine.transportState = some ref →
    s'.transports ref = s.transports ref
  outputs : ∀ o ∈ os, place.Permits o

section

variable {role : ℕ → Option Direction} {held held' : Direction → List Bytes} {p p' : NodePool}
  {os : List Output} {ts : List Task} {i : ℕ} {c : Choice} {inn out held₁ : List Bytes}

theorem Moves.passes_none (h : place.Moves none s s' os ts inn out) :
    place.Passes s s' os held held where
  content e := by
    have hin := h.inlet e
    have hout := h.outlet e
    simp only [reduceCtorEq, if_false, List.nil_append, List.append_nil] at hin hout
    rw [hout, hin]
  transports := h.transports
  outputs := h.outputs

theorem Moves.passes_some (h : place.Moves (some d) s s' os ts inn out)
    (heq : held d ++ inn = out ++ held₁) :
    place.Passes s s' os held (Function.update held d held₁) where
  content e := by
    have hin := h.inlet e
    have hout := h.outlet e
    by_cases he : e = d
    · subst he
      simp only [if_true] at hin hout
      rw [hout, hin, Function.update_self]
      calc place.arrived e s ++ out ++ held₁ ++ place.inlet e s'
          = place.arrived e s ++ (out ++ held₁) ++ place.inlet e s' := by simp
        _ = place.arrived e s ++ held e ++ (inn ++ place.inlet e s') := by rw [← heq]; simp
    · have hne : some d ≠ some e := fun h => he (Option.some.inj h).symm
      simp only [if_neg hne, List.nil_append, List.append_nil] at hin hout
      rw [hout, hin, Function.update_of_ne he]
  transports := h.transports
  outputs := h.outputs

theorem Runs.congr {ρ : Option Direction} {t : Thread} (h : place.Runs held ρ t)
    (heq : ∀ d, ρ = some d → held' d = held d) : place.Runs held' ρ t := by
  cases ρ with
  | none => exact h
  | some d =>
    obtain ⟨w, hw, ht⟩ := h
    exact ⟨w, hw, (heq d rfl).symm ▸ ht⟩

/-- Bystanders may join. -/
theorem Staffed.join (h : place.Staffed role held p) (hset : place.Settled s')
    {ts : List Thread} (hts : ∀ t ∈ ts, place.Bystands place.Next t) :
    place.Staffed role held ⟨s', p.threads ++ ts⟩ where
  settled := hset
  present j e hj := by
    rw [List.length_append]
    exact Nat.lt_add_right _ (h.present j e hj)
  single := h.single
  runs j t ht := by
    by_cases hj : j < p.threads.length
    · rw [List.getElem?_append_left hj] at ht
      exact h.runs j t ht
    · have hrole : role j = none := by
        rw [← Option.not_isSome_iff_eq_none, Option.isSome_iff_exists]
        rintro ⟨e, he⟩
        exact hj (h.present j e he)
      rw [List.getElem?_append_right (Nat.le_of_not_lt hj)] at ht
      rw [hrole]
      exact hts t (List.mem_of_getElem? ht)

theorem Staffed.keep (h : place.Staffed role held p)
    (heq : ∀ d i, role i = some d → held' d = held d) : place.Staffed role held' p :=
  ⟨h.settled, h.present, h.single, fun i t ht => (h.runs i t ht).congr fun d hd => heq d i hd⟩

theorem Staffed.state (h : place.Staffed role held p) (hset : place.Settled s') :
    place.Staffed role held ⟨s', p.threads⟩ :=
  ⟨hset, h.present, h.single, h.runs⟩

theorem bystands_spawned (hts : ∀ t ∈ ts, place.TaskApart t) :
    ∀ t ∈ ts.map (Task.body place.node), place.Bystands place.Next t := by
  intro t ht
  obtain ⟨task, htask, rfl⟩ := List.mem_map.mp ht
  exact bystands_body (hts task htask)

/-- A turn of any thread hands on what the node holds. -/
theorem Staffed.turn (h : place.Staffed role held p) (hc : place.Allows c)
    (hs : (nodeSemantics place.node).step p i c = some (p', os)) :
    ∃ held', place.Staffed role held' p' ∧ place.Passes p.state p'.state os held held' ∧
      ∀ d, (∀ j, role j ≠ some d) → held' d = held d := by
  obtain ⟨t, r, ht, hr, hstate, hthreads, rfl⟩ := (nodeSemantics place.node).step_eq_some hs
  have hp : p' = ⟨r.state, p.threads.set i r.answer ++ r.spawned.map (Task.body place.node)⟩ := by
    cases p'
    simp only at hstate hthreads
    rw [hstate, hthreads]
    rfl
  have hrun := h.runs i t ht
  have hmid (held' : Direction → List Bytes) (hans : place.Runs held' (role i) r.answer)
      (hothers : ∀ j d, j ≠ i → role j = some d → held' d = held d) :
      place.Staffed role held' ⟨p.state, p.threads.set i r.answer⟩ :=
    { settled := h.settled
      present := fun j e hj => by simpa using h.present j e hj
      single := h.single
      runs := fun j u hu => by
        by_cases hij : i = j
        · subst hij
          rw [List.getElem?_set_self (List.getElem?_eq_some_iff.mp ht).1] at hu
          cases hu
          exact hans
        · rw [List.getElem?_set_ne hij] at hu
          exact (h.runs j u hu).congr fun d hd => hothers j d (Ne.symm hij) hd }
  have hidle {ρ : Option Direction} (s : Shared) (hs : (place.contract ρ).Inv s) :
      (place.contract ρ).Moves s s [] [] [] [] := Settled.moves_refl hs
  cases hrole : role i with
  | none =>
    rw [hrole] at hrun
    have hbody : ∀ held task, (held = [] ∧ place.Next (some task)) →
        (nodeSemantics place.node).Carries (place.contract none)
          (fun held o => held = [] ∧ place.Next o) (task.body place.node) held := by
      rintro _ task ⟨rfl, hnext⟩
      exact bystands_body (hnext task rfl)
    obtain ⟨inn, out, held₁, heq, hmoves, hans⟩ :=
      Semantics.Carries.advance hidle hbody hrun h.settled (fun _ => hc) hr
    obtain ⟨rfl, rfl⟩ := hmoves.idle rfl
    obtain rfl : held₁ = [] := heq.symm
    refine ⟨held, ?_, hstate ▸ hmoves.passes_none, fun _ _ => rfl⟩
    rw [hp]
    refine (hmid _ ?_ fun _ _ _ _ => rfl).join hmoves.settled (bystands_spawned hmoves.spawned)
    rw [hrole]
    exact hans
  | some d =>
    rw [hrole] at hrun
    obtain ⟨w, hw, hconvey⟩ := hrun
    obtain ⟨inn, out, held₁, heq, hmoves, hans⟩ :=
      Semantics.Carries.advance hidle (fun _ _ => conveys_body hw) hconvey h.settled
        (fun hd => absurd hd (Option.some_ne_none d)) hr
    refine ⟨Function.update held d held₁, ?_, hstate ▸ hmoves.passes_some heq, fun e he => ?_⟩
    · rw [hp]
      refine (hmid _ ?_ fun j e hj he => ?_).join hmoves.settled (bystands_spawned hmoves.spawned)
      · rw [hrole]
        exact ⟨w, hw, by rwa [Function.update_self]⟩
      · refine Function.update_of_ne ?_ _ _
        rintro rfl
        exact hj (h.single j i e he hrole)
    · refine Function.update_of_ne ?_ _ _
      rintro rfl
      exact he i hrole

/-- What reaches the node is about other sessions, and no stream of the path fails. -/
def EventApart (place : Place) : Event → Prop
  | .thread _ c => place.Allows c
  | .ack _ ack => place.AckApart ack
  | .proxyRequest r => place.ProxyApart r
  | .cmdRequest r => place.CmdApart r
  | .gossip _ => True
  | .frame w res => place.guards w = false ∧ ∀ b, res = .ok b → place.FrameApart b
  | .inbound _ => True
  | .call t => place.TaskApart t

theorem Settled.ack (h : place.Settled s) {ack : Ack} (hack : place.AckApart ack) :
    place.Same s (s.injectAck ack) := by
  unfold Shared.injectAck
  cases s.eventBus ack.commandId with
  | none => exact .refl h
  | some sender =>
    dsimp only
    refine ⟨{ h with acks := fun j sent hj => ?_ }, fun _ _ _ _ => rfl, fun _ _ => rfl, fun _ _ => rfl⟩
    by_cases hij : j = sender
    · subst hij
      simp only [Function.update_self, Oneshot.sent.injEq] at hj
      exact hj ▸ hack
    · simp only [Function.update_of_ne hij] at hj
      exact h.acks j sent hj

theorem Settled.frame (h : place.Settled s) {i : ℕ} {res : ReadResult} (hres : place.Arrives i res) :
    place.Settled (s.pushFrame i res) where
  __ := h
  inbox j r hr := by
    simp only [Shared.pushFrame] at hr
    by_cases hij : j = i
    · subst hij
      rw [Function.update_self, List.mem_append, List.mem_singleton] at hr
      obtain hr | rfl := hr
      · exact h.inbox j r hr
      · exact hres
    · rw [Function.update_of_ne hij] at hr
      exact h.inbox j r hr

omit [Codec] in
@[simp] theorem arrived_frame (e : Direction) (i : ℕ) (res : ReadResult) :
    place.arrived e (s.pushFrame i res) = place.arrived e s :=
  arrived_congr (fun _ _ => rfl) e

theorem inlet_frame (hv : place.source d = some v) {res : ReadResult}
    (hb : load place.sid res = some b) :
    place.inlet d (s.pushFrame v.streamId res) = place.inlet d s ++ [b] := by
  simp [inlet, hv, Shared.pushFrame, hb]

theorem inlet_frame_flip (hv : place.source d = some v) (res : ReadResult) :
    place.inlet d.flip (s.pushFrame v.streamId res) = place.inlet d.flip s := by
  unfold inlet
  cases hw : place.source d.flip with
  | none => rfl
  | some w =>
    have hne := place.sources_ne d v w hv hw
    simp only [Shared.pushFrame, Function.update_of_ne hne.symm]

/-- An event that is no turn leaves the path alone and starts bystanders only. -/
theorem arrival_same (h : place.Settled p.state) {e : Event} (he : place.EventApart e)
    (hturn : ∀ i c, e ≠ .thread i c) (hs : nodeStep place.node p e = some (p', os)) :
    place.Same p.state p'.state ∧ os = [] ∧
      ∃ ts : List Task, p'.threads = p.threads ++ ts.map (Task.body place.node) ∧
        ∀ t ∈ ts, place.TaskApart t := by
  have hnone (hp : p'.threads = p.threads) :
      ∃ ts : List Task, p'.threads = p.threads ++ ts.map (Task.body place.node) ∧
        ∀ t ∈ ts, place.TaskApart t := ⟨[], by simpa using hp, List.forall_mem_nil _⟩
  have hset {s' : Shared} (hs' : place.Settled s') (ht : s'.transports = p.state.transports)
      (hi : s'.inbox = p.state.inbox) (hc : s'.channels = p.state.channels) :
      place.Same p.state s' := by
    refine ⟨hs', fun _ ref _ _ => ?_, fun w _ => ?_, fun mine _ => ?_⟩
    · rw [ht]
    · rw [hi]
    · rw [hc]
  cases e with
  | thread i c => exact absurd rfl (hturn i c)
  | ack peer ack =>
    obtain ⟨rfl, rfl⟩ := Prod.mk.inj (Option.some.inj hs)
    exact ⟨h.ack he, rfl, hnone rfl⟩
  | proxyRequest r =>
    obtain ⟨rfl, rfl⟩ := Prod.mk.inj (Option.some.inj hs)
    refine ⟨hset { h with proxyRequests := fun x hx => ?_ } rfl rfl rfl, rfl, hnone rfl⟩
    obtain hx | hx := List.mem_append.mp hx
    · exact h.proxyRequests x hx
    · exact List.mem_singleton.mp hx ▸ he
  | cmdRequest r =>
    obtain ⟨rfl, rfl⟩ := Prod.mk.inj (Option.some.inj hs)
    refine ⟨hset { h with cmdRequests := fun x hx => ?_ } rfl rfl rfl, rfl, hnone rfl⟩
    obtain hx | hx := List.mem_append.mp hx
    · exact h.cmdRequests x hx
    · exact List.mem_singleton.mp hx ▸ he
  | gossip data =>
    obtain ⟨rfl, rfl⟩ := Prod.mk.inj (Option.some.inj hs)
    exact ⟨hset { h with } rfl rfl rfl, rfl, hnone rfl⟩
  | frame w res =>
    obtain ⟨rfl, rfl⟩ := Prod.mk.inj (Option.some.inj hs)
    have hres : place.Arrives w res := by
      simpa only [Arrives, he.1, Bool.false_eq_true, if_false] using he.2
    refine ⟨⟨h.frame hres, fun _ _ _ _ => rfl, fun v hv => ?_, fun _ _ => rfl⟩, rfl, hnone rfl⟩
    refine Function.update_of_ne ?_ _ _
    rintro rfl
    exact absurd hv (by simp [he.1])
  | inbound stream =>
    simp only [nodeStep] at hs
    split at hs
    · cases hs
    · next hfresh =>
      obtain ⟨rfl, rfl⟩ := Prod.mk.inj (Option.some.inj hs)
      refine ⟨hset { h with streams := fun v hv => List.mem_cons_of_mem _ (h.streams v hv) } rfl rfl rfl,
        rfl, [.relayEventHandler stream none], rfl, ?_⟩
      intro t ht
      obtain rfl := List.mem_singleton.mp ht
      refine ⟨?_, (Option.some_ne_none _).symm⟩
      by_contra hg
      exact hfresh (h.streams _ (by simpa using hg))
  | call t =>
    obtain ⟨rfl, rfl⟩ := Prod.mk.inj (Option.some.inj hs)
    exact ⟨.refl h, rfl, [t], rfl, fun u hu => List.mem_singleton.mp hu ▸ he⟩

/-- Any event at the node hands on what it holds. -/
theorem Staffed.step (h : place.Staffed role held p) {e : Event} (he : place.EventApart e)
    (hs : nodeStep place.node p e = some (p', os)) :
    ∃ held', place.Staffed role held' p' ∧ place.Passes p.state p'.state os held held' ∧
      ∀ d, (∀ j, role j ≠ some d) → held' d = held d := by
  by_cases hturn : ∃ i c, e = .thread i c
  · obtain ⟨i, c, rfl⟩ := hturn
    exact h.turn he hs
  · obtain ⟨hsame, rfl, ts, hts, happart⟩ :=
      arrival_same h.settled he (fun i c heq => hturn ⟨i, c, heq⟩) hs
    have hp : p' = ⟨p'.state, p.threads ++ ts.map (Task.body place.node)⟩ := by rw [← hts]
    refine ⟨held, ?_, (hsame.moves (fun _ ho => by cases ho) happart).passes_none, fun _ _ => rfl⟩
    rw [hp]
    exact h.join hsame.settled (bystands_spawned happart)

/-- A handler that cannot go on has empty hands and nothing to read. -/
theorem Staffed.stuck (h : place.Staffed role held p) {d : Direction} (hi : role i = some d)
    (hs : ∀ c, (nodeSemantics place.node).step p i c = none) :
    held d = [] ∧ place.inlet d p.state = [] := by
  have hlt := h.present i d hi
  have ht : p.threads[i]? = some p.threads[i] := List.getElem?_eq_getElem hlt
  have hadvance (c : Choice) :
      (nodeSemantics place.node).advance c p.state p.threads[i] = none := by
    have hc := hs c
    simp only [Semantics.step, ht] at hc
    cases ha : (nodeSemantics place.node).advance c p.state p.threads[i] with
    | none => rfl
    | some r => simp [ha] at hc
  have hrun := h.runs i _ ht
  rw [hi] at hrun
  obtain ⟨w, hw, hconvey⟩ := hrun
  have hret : ∀ task, p.threads[i] ≠ .ret (some task) := by
    intro task heq
    have hc := hadvance .go
    rw [heq] at hc
    cases hc
  have : Nonempty Choice := ⟨.go⟩
  obtain ⟨a, heq, -, current, rfl⟩ | ⟨a, k, heq, hask, hreply⟩ := hconvey.blocked
    (Option.some_ne_none d) fun c => (Semantics.advance_eq_operate hret).symm.trans (hadvance c)
  · exact absurd heq (hret _)
  · cases a with
    | read v =>
      obtain ⟨hv, hheld⟩ := hask d rfl
      refine ⟨hheld, ?_⟩
      have hnone : Shared.reply (.read v) .go p.state = none := hreply .go
      cases hq : p.state.inbox v.streamId with
      | nil => simp [inlet, hv, hq]
      | cons res q => simp [Shared.reply, Shared.dequeue, hq] at hnone
    | randomBelow n =>
      have hpos : 0 < n := hask d rfl
      have hnone : Shared.reply (.randomBelow n) (.bytes []) p.state = none := hreply (.bytes [])
      simp [Shared.reply, hpos] at hnone
    | write v b => cases hreply .go
    | _ => exact (hask d rfl).elim

end

end Place

end WhiteNoise
