import WhiteNoise.Swarm.Delivery
import Mathlib.Data.Set.Finite.Lattice

/-! # Polling to the end

Handlers and behaviour hand on one thing for each poll. Whatever the order of
the polls, they come to an end, and by then every substream that an open
connection has negotiated is with the node.
-/

namespace WhiteNoise.Swarm

open Wire Process

section Generic

variable {X : Type}

/-- Something that is waiting is handed on. -/
def Event.IsPoll : Event X → Prop
  | connection _ .poll | connection _ .command | injectEvent _ _ | poll _ | accept => True
  | _ => False

/-! ## How much waits -/

/-- How often the connection can still be polled, and the behaviour because of it. -/
def Connection.weight (conn : Connection X) : ℕ :=
  4 * (conn.handler.inbound.length + conn.handler.outbound.length) + 3 * conn.notices.length +
    2 * conn.commands.length + conn.handler.events.length

theorem Connection.poll_weight {conn conn' : Connection X} (h : conn.step .poll = some conn') :
    conn'.weight < conn.weight := by
  simp only [step] at h
  split at h
  · cases h
  · next e handler hp =>
    split at h
    · cases h
      rcases RelayHandler.poll_cases hp with ⟨x, -, hh⟩ | ⟨x, -, hh⟩ | ⟨x, he, -⟩
      · simp only [weight, hh, List.length_append, List.length_cons, List.length_nil]
        omega
      · simp only [weight, hh, List.length_append, List.length_cons, List.length_nil]
        omega
      · cases he
    · cases h
  · next handler hp =>
    split at h
    · cases h
      rcases RelayHandler.poll_cases hp with ⟨x, he, -⟩ | ⟨x, he, -⟩ | ⟨x, -, hh⟩
      · cases he
      · cases he
      · simp only [weight, hh, List.length_cons]
        omega
    · cases h

theorem Connection.command_weight {conn conn' : Connection X}
    (h : conn.step .command = some conn') : conn'.weight < conn.weight := by
  simp only [step] at h
  split at h
  · cases h
  · next x commands hx =>
    split at h
    · cases h
      simp only [weight, hx, RelayHandler.injectEvent, List.length_append, List.length_cons,
        List.length_nil]
      omega
    · cases h

theorem sum_map_set {α : Type} {f : α → ℕ} {l : List α} {i : ℕ} {a b : α} (h : l[i]? = some a) :
    ((l.set i b).map f).sum + f a = (l.map f).sum + f b := by
  induction l generalizing i with
  | nil => cases h
  | cons c l ih =>
    cases i with
    | zero =>
      obtain rfl := Option.some.inj h
      simp only [List.set_cons_zero, List.map_cons, List.sum_cons]
      omega
    | succ i =>
      simp only [List.set_cons_succ, List.map_cons, List.sum_cons]
      have hih := ih h
      omega

variable [Codec] [Crypto] {node : Node} {m m' : Machine X} {e : Event X} {o : List (Out X)}

namespace Machine

def weight (m : Machine X) : ℕ :=
  (m.connections.map Connection.weight).sum + 2 * m.waiting.length +
    m.behaviour.relayInStreams.length + 3 * m.behaviour.relayBehaviour.diveEvents.length

omit [Codec] in
theorem poll_weight {target : Option ℕ} (h : m.poll target = some (m', o)) :
    m'.weight < m.weight := by
  unfold poll at h
  split at h
  · split at h
    · cases h
    · next x relay hp =>
      obtain ⟨x', hx, hwaiting, hdive, -⟩ | ⟨p, hx, -⟩ := Relay.poll_cases hp
      · cases hx
        have hlength := congrArg List.length hwaiting
        rw [List.length_cons] at hlength
        dsimp only at h
        split at h
        · cases h
          simp only [weight, waiting, stop, hdive]
          omega
        · cases h
          cases x <;> simp only [weight, waiting, WhitenoiseBehaviour.injectRelayEvent, hdive,
            List.length_append, List.length_cons, List.length_nil] <;> omega
      · cases hx
    · next p x relay hp =>
      obtain ⟨x', hx, -⟩ | ⟨p', hx, -, hrelay⟩ := Relay.poll_cases hp
      · cases hx
      · have hdive := congrArg (List.length ∘ Relay.diveEvents) hrelay
        have hwaiting : m.behaviour.relayBehaviour.waiting = relay.waiting := by
          rw [hrelay]
          rfl
        simp only [Function.comp_apply, List.length_cons] at hdive
        split at h
        · cases h
          simp only [weight, waiting, hwaiting, hdive]
          omega
        · split at h
          · cases h
          · next c conn hc =>
            split at h
            · cases h
              have hsum := sum_map_set (f := Connection.weight)
                (b := { conn with commands := conn.commands ++ [x] }) hc
              simp only [Connection.weight, List.length_append, List.length_singleton] at hsum
              simp only [weight, waiting, hwaiting, hdive]
              omega
            · cases h
  · cases h

/-- Every poll leaves less to hand on. -/
theorem step_weight (he : e.IsPoll) (h : m.step node e = some (m', o)) : m'.weight < m.weight := by
  cases e with
  | connection c ce =>
    simp only [step] at h
    split at h
    · cases h
    · next conn hc =>
      split at h
      · cases h
      · next conn' hs =>
        cases h
        have hlt : conn'.weight < conn.weight := by
          cases ce with
          | poll => exact Connection.poll_weight hs
          | command => exact Connection.command_weight hs
          | _ => exact he.elim
        have hsum := sum_map_set (f := Connection.weight) (b := conn') hc
        simp only [weight, waiting]
        omega
  | injectEvent c id =>
    simp only [step, injectEvent] at h
    split at h
    · cases h
    · next conn hc =>
      split at h
      · cases h
      · next x notices hx =>
        split at h
        · cases h
          have hsum := sum_map_set (f := Connection.weight) (b := { conn with notices }) hc
          have hwaiting := congrArg List.length
            (Relay.waiting_injectEvent conn.peer id x m.behaviour.relayBehaviour)
          rw [List.length_append, List.length_singleton] at hwaiting
          simp only [Connection.weight, hx, List.length_cons] at hsum
          have hdive : (m.behaviour.relayBehaviour.injectEvent conn.peer id x).diveEvents =
            m.behaviour.relayBehaviour.diveEvents := rfl
          simp only [weight, waiting, hwaiting, hdive]
          omega
        · cases h
  | poll target => exact poll_weight h
  | accept =>
    simp only [step, accept] at h
    split at h
    · cases h
    · next w relayInStreams hw =>
      cases h
      simp only [weight, waiting, hw, List.length_cons]
      omega
  | _ => exact he.elim

theorem run_weight {es : List (Event X)} {os : List (Out X)} (hes : ∀ e ∈ es, e.IsPoll)
    (h : run (step node) m es = some (m', os)) : es.length + m'.weight ≤ m.weight := by
  induction es generalizing m os with
  | nil =>
    obtain ⟨rfl, -⟩ := Prod.mk.inj (Option.some.inj h)
    simp
  | cons e es ih =>
    obtain ⟨m₁, o, o', hs, hr, -⟩ := run_cons_iff.mp h
    have hlt := step_weight (hes e List.mem_cons_self) hs
    have hle := ih (fun e he => hes e (List.mem_cons_of_mem _ he)) hr
    rw [List.length_cons]
    omega

/-! ## At the end -/

/-- No poll hands anything on. -/
def Idle (node : Node) (m : Machine X) : Prop := ∀ e : Event X, e.IsPoll → m.step node e = none

theorem Idle.relayInStreams (h : m.Idle node) : m.behaviour.relayInStreams = [] := by
  have haccept := h .accept trivial
  simp only [step, accept] at haccept
  split at haccept
  · next hnil => exact hnil
  · cases haccept

theorem Idle.poll (h : m.Idle node) (halive : m.alive) :
    m.waiting = [] ∧ m.behaviour.relayBehaviour.diveEvents = [] := by
  have hpoll := h (.poll none) trivial
  simp only [step, Machine.poll, halive, if_true] at hpoll
  split at hpoll
  · next hp => exact Relay.poll_eq_none_iff.mp hp
  · split at hpoll <;> cases hpoll
  · cases hpoll

theorem Idle.notices (h : m.Idle node) (halive : m.alive) {c : ℕ} {conn : Connection X}
    (hc : m.connections[c]? = some conn) : conn.notices = [] := by
  obtain ⟨id, hid⟩ := Infinite.exists_notMem_finset m.drawn.toFinset
  have hinject := h (.injectEvent c id) trivial
  simp only [step, injectEvent, hc] at hinject
  split at hinject
  · next hnil => exact hnil
  · rw [if_pos ⟨halive, by simpa using hid⟩] at hinject
    cases hinject

theorem Idle.handler (h : m.Idle node) {c : ℕ} {conn : Connection X}
    (hc : m.connections[c]? = some conn) (hopen : conn.isOpen) :
    conn.handler = {} ∧ conn.commands = [] := by
  have hpoll := h (.connection c .poll) trivial
  have hcommand := h (.connection c .command) trivial
  simp only [step, hc, Connection.step, hopen, if_true] at hpoll hcommand
  constructor
  · split at hpoll
    · next hnone =>
      split at hnone
      · next hp => exact RelayHandler.poll_eq_none hp
      · cases hnone
      · cases hnone
    · cases hpoll
  · split at hcommand
    · next hnone =>
      split at hnone
      · next hnil => exact hnil
      · cases hnone
    · cases hcommand

end Machine

/-- What the node has been handed of a run: all that the open connections have negotiated, all that
the behaviour has been told, and all that came in accepted. No dial is left in a queue. -/
structure Handed (es : List (Event X)) (os : List (Out X)) (m : Machine X) : Prop where
  wrapped : ∀ (c : ℕ) (conn : Connection X) d, m.connections[c]? = some conn → conn.isOpen →
    os.filterMap (Out.substream c d) = es.filterMap (Event.negotiated c d)
  reported : os.filterMap Out.event = os.filterMap Out.injected
  accepted : os.filterMap Out.stream = (os.filterMap Out.event).filterMap RelayEvent.inbound
  dials : m.behaviour.relayBehaviour.diveEvents = []
  commands : ∀ (c : ℕ) (conn : Connection X), m.connections[c]? = some conn → conn.isOpen →
    conn.commands = [] ∧ conn.handler.events = []

theorem Conveyed.handed {es : List (Event X)} {os : List (Out X)} (h : Conveyed es os m)
    (hidle : m.Idle node) (halive : m.alive) : Handed es os m := by
  obtain ⟨hwaiting, hdive⟩ := hidle.poll halive
  constructor
  · intro c conn d hc hopen
    have hpending : m.pending c d = [] := by
      obtain ⟨hhandler, -⟩ := hidle.handler hc hopen
      rw [Machine.pending, hc]
      change conn.notices.filterMap _ ++ conn.handler.queue d = []
      rw [hidle.notices halive hc, hhandler]
      cases d <;> rfl
    rw [h.wrapped c d, hpending, List.append_nil]
  · rw [h.reported, hwaiting, List.append_nil]
  · rw [h.accepted, hidle.relayInStreams, List.append_nil]
  · exact hdive
  · intro c conn hc hopen
    obtain ⟨hhandler, hcommands⟩ := hidle.handler hc hopen
    exact ⟨hcommands, by rw [hhandler]⟩

/-- After any run, polls in any order come to an end. If the event loop has not ended by then, the
node has been handed everything. -/
theorem polls_hand_on {mode : RunMode} {es ps : List (Event X)} {os os' : List (Out X)}
    (h : run (Machine.step node) (Machine.start X node mode) es = some (m, os))
    (hps : ∀ e ∈ ps, e.IsPoll) (hr : run (Machine.step node) m ps = some (m', os')) :
    ps.length ≤ m.weight ∧
      (m'.Idle node → m'.alive → Handed es (os ++ os') m') := by
  constructor
  · have hweight := Machine.run_weight hps hr
    omega
  · intro hidle halive
    have hconveyed := run_conveyed (run_append_iff.mpr ⟨m, os, os', h, hr, rfl⟩)
    have hhanded := hconveyed.handed hidle halive
    have hpolls : ∀ c d, ps.filterMap (Event.negotiated c d) = [] := by
      intro c d
      rw [List.filterMap_eq_nil_iff]
      intro e he
      have hpoll := hps e he
      cases e with
      | connection c' ce =>
        simp only [Event.negotiated]
        split
        · cases ce with
          | inbound | outbound => exact hpoll.elim
          | _ => cases d <;> rfl
        · rfl
      | _ => rfl
    constructor
    · intro c conn d hc hopen
      rw [hhanded.wrapped c conn d hc hopen, List.filterMap_append, hpolls, List.append_nil]
    · exact hhanded.reported
    · exact hhanded.accepted
    · exact hhanded.dials
    · exact hhanded.commands

end Generic

theorem polls_hand_on_inbound : ∃ m os m' os',
    run (Machine.step Sample.node) (Machine.start ℕ Sample.node .server) Sample.comesIn =
      some (m, os) ∧
    run (Machine.step Sample.node) m Sample.handedOn = some (m', os') ∧
    Sample.handedOn.length ≤ m.weight ∧
      (m'.Idle Sample.node → m'.alive → Handed Sample.comesIn (os ++ os') m') := by
  obtain ⟨m', os', hr, -⟩ := exists_run (Machine.step Sample.node)
    (Machine.start ℕ Sample.node .server) (Sample.comesIn ++ Sample.handedOn) (fun _ => true)
    (by decide +kernel)
  obtain ⟨m, o, o', hin, hon, -⟩ := run_append_iff.mp hr
  refine ⟨m, o, m', o', hin, hon, polls_hand_on hin ?_ hon⟩
  simp [Sample.handedOn, Event.IsPoll]

end WhiteNoise.Swarm
