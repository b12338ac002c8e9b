import WhiteNoise.Network.Session
import WhiteNoise.Process.Flow

/-! # The relay protocol of the swarm

Each connection has a handler for its relay substreams, and the node has one
behaviour above the handlers. Both hand on what has happened one event for each
poll. A substream reaches the tasks of the node wrapped with a new identifier.
-/

namespace WhiteNoise.Swarm

open Process

/-! ## The handler of a connection -/

inductive RelayHandlerInEvent where
  | dial (peerId : PeerId)
  deriving DecidableEq

variable {X : Type}

/-- `X` are the negotiated substreams. -/
inductive RelayHandlerOutEvent (X : Type) where
  | relayInbound (stream : X)
  | relayOutbound (stream : X)
  deriving DecidableEq

structure RelayHandler (X : Type) where
  inbound : List X := []
  outbound : List X := []
  events : List RelayHandlerInEvent := []
  deriving DecidableEq

/-- What a poll of the handler can yield. -/
inductive ProtocolsHandlerEvent (X : Type) where
  | custom (e : RelayHandlerOutEvent X)
  | outboundSubstreamRequest
  deriving DecidableEq

namespace RelayHandler

def injectFullyNegotiatedInbound (stream : X) (h : RelayHandler X) : RelayHandler X :=
  { h with inbound := h.inbound ++ [stream] }

def injectFullyNegotiatedOutbound (stream : X) (h : RelayHandler X) : RelayHandler X :=
  { h with outbound := h.outbound ++ [stream] }

def injectEvent (x : RelayHandlerInEvent) (h : RelayHandler X) : RelayHandler X :=
  { h with events := h.events ++ [x] }

/-- The error is only logged. -/
def injectDialUpgradeError (h : RelayHandler X) : RelayHandler X := h

/-- `none` is pending. -/
def poll (h : RelayHandler X) : Option (ProtocolsHandlerEvent X × RelayHandler X) :=
  match h.inbound with
  | stream :: inbound => some (.custom (.relayInbound stream), { h with inbound })
  | [] =>
    match h.outbound with
    | stream :: outbound => some (.custom (.relayOutbound stream), { h with outbound })
    | [] =>
      match h.events with
      | _ :: events => some (.outboundSubstreamRequest, { h with events })
      | [] => none

/-- What a poll takes. -/
theorem poll_cases {h h' : RelayHandler X} {e : ProtocolsHandlerEvent X}
    (hp : h.poll = some (e, h')) :
    (∃ x, e = .custom (.relayInbound x) ∧ h = { h' with inbound := x :: h'.inbound }) ∨
    (∃ x, e = .custom (.relayOutbound x) ∧ h = { h' with outbound := x :: h'.outbound }) ∨
    ∃ d, e = .outboundSubstreamRequest ∧ h = { h' with events := d :: h'.events } := by
  obtain ⟨inbound, outbound, events⟩ := h
  cases inbound with
  | cons x inbound =>
    cases hp
    exact Or.inl ⟨x, rfl, rfl⟩
  | nil =>
    cases outbound with
    | cons x outbound =>
      cases hp
      exact Or.inr (Or.inl ⟨x, rfl, rfl⟩)
    | nil =>
      cases events with
      | cons d events =>
        cases hp
        exact Or.inr (Or.inr ⟨d, rfl, rfl⟩)
      | nil => cases hp

theorem poll_eq_none {h : RelayHandler X} (hp : h.poll = none) : h = {} := by
  obtain ⟨inbound, outbound, events⟩ := h
  cases inbound with
  | cons => cases hp
  | nil =>
    cases outbound with
    | cons => cases hp
    | nil =>
      cases events with
      | cons => cases hp
      | nil => rfl

end RelayHandler

/-! ## The behaviour -/

inductive RelayEvent where
  | relayInbound (stream : WrappedStream)
  | relayOutbound (stream : WrappedStream)
  | disconnect (peerId : PeerId)
  deriving DecidableEq

/-- What a poll of the behaviour can yield; a notification is for any connection of the peer. -/
inductive NetworkBehaviourAction where
  | generateEvent (e : RelayEvent)
  | notifyHandler (peerId : PeerId) (event : RelayHandlerInEvent)
  deriving DecidableEq

/-- The two queues, their fronts first, and the addresses that the relay protocol knows of. -/
structure Relay where
  outEvents : List RelayEvent := []
  diveEvents : List RelayHandlerInEvent := []
  addresses : PeerId → Option (List String) := fun _ => none

namespace Relay

def newStream (peerId : PeerId) (r : Relay) : Relay :=
  { r with diveEvents := r.diveEvents ++ [.dial peerId] }

def addressesOfPeer (peerId : PeerId) (r : Relay) : List String := (r.addresses peerId).getD []

def injectDisconnected (peerId : PeerId) (r : Relay) : Relay :=
  { r with outEvents := .disconnect peerId :: r.outEvents }

/-- The event of a handler, its substream wrapped. -/
def wrap (stream : WrappedStream) : RelayHandlerOutEvent X → RelayEvent
  | .relayInbound _ => .relayInbound stream
  | .relayOutbound _ => .relayOutbound stream

/-- `inject_event` with the identifier that `from_neg_to_wraped` draws. -/
def injectEvent (peer : PeerId) (streamId : ℕ) (result : RelayHandlerOutEvent X) (r : Relay) :
    Relay :=
  { r with outEvents := wrap ⟨peer, streamId⟩ result :: r.outEvents }

/-- `none` is pending. -/
def poll (r : Relay) : Option (NetworkBehaviourAction × Relay) :=
  match r.outEvents.getLast? with
  | some e => some (.generateEvent e, { r with outEvents := r.outEvents.dropLast })
  | none =>
    match r.diveEvents with
    | .dial x :: diveEvents => some (.notifyHandler x (.dial x), { r with diveEvents })
    | [] => none

/-- The events that have not been handed on, the next one first. -/
def waiting (r : Relay) : List RelayEvent := r.outEvents.reverse

@[simp] theorem waiting_injectDisconnected (peerId : PeerId) (r : Relay) :
    (r.injectDisconnected peerId).waiting = r.waiting ++ [.disconnect peerId] :=
  List.reverse_cons

@[simp] theorem waiting_injectEvent (peer : PeerId) (streamId : ℕ)
    (result : RelayHandlerOutEvent X) (r : Relay) :
    (r.injectEvent peer streamId result).waiting =
      r.waiting ++ [wrap ⟨peer, streamId⟩ result] :=
  List.reverse_cons

@[simp] theorem waiting_newStream (peerId : PeerId) (r : Relay) :
    (r.newStream peerId).waiting = r.waiting := rfl

/-- What a poll takes. -/
theorem poll_cases {r r' : Relay} {a : NetworkBehaviourAction} (hp : r.poll = some (a, r')) :
    (∃ e, a = .generateEvent e ∧ r.waiting = e :: r'.waiting ∧ r'.diveEvents = r.diveEvents ∧
      r'.addresses = r.addresses) ∨
    ∃ p, a = .notifyHandler p (.dial p) ∧ r.waiting = [] ∧
      r = { r' with diveEvents := .dial p :: r'.diveEvents } := by
  obtain ⟨outEvents, diveEvents, addresses⟩ := r
  induction outEvents using List.reverseRecOn with
  | append_singleton outEvents e _ =>
    simp only [poll, List.getLast?_concat, List.dropLast_concat, Option.some.injEq,
      Prod.mk.injEq] at hp
    obtain ⟨rfl, rfl⟩ := hp
    exact Or.inl ⟨e, rfl, List.reverse_concat .., rfl, rfl⟩
  | nil =>
    cases diveEvents with
    | nil => cases hp
    | cons d diveEvents =>
      cases d with
      | dial p =>
        cases hp
        exact Or.inr ⟨p, rfl, rfl, rfl⟩

theorem poll_eq_none_iff {r : Relay} : r.poll = none ↔ r.waiting = [] ∧ r.diveEvents = [] := by
  obtain ⟨outEvents, diveEvents, addresses⟩ := r
  constructor
  · intro hp
    cases h : outEvents.getLast? with
    | some e => simp [poll, h] at hp
    | none =>
      cases diveEvents with
      | nil => exact ⟨by simpa [waiting] using List.getLast?_eq_none_iff.mp h, rfl⟩
      | cons d diveEvents => cases d with | dial p => simp [poll, h] at hp
  · rintro ⟨hwaiting, rfl⟩
    obtain rfl : outEvents = [] := List.reverse_eq_nil_iff.mp hwaiting
    rfl

end Relay

end WhiteNoise.Swarm
