import WhiteNoise.Swarm.Relay
import WhiteNoise.Network.MainNets

/-! # The behaviours of a node and its event loop

What the protocols report goes into the queues and channels of the node. What
the tasks ask for comes to the event loop over one channel, a request at a time.
-/

namespace WhiteNoise.Swarm

open Wire

variable [Codec] [Crypto]

inductive RunMode where
  | client | server
  deriving DecidableEq

/-! ## Events of the protocols -/

/-- The relay behaviour and the queues of opened streams. The bus and the channels that the
behaviour has as well are in the shared state of the node. -/
structure WhitenoiseBehaviour where
  relayBehaviour : Relay := {}
  relayOutStreams : List WrappedStream := []
  relayInStreams : List WrappedStream := []

namespace WhitenoiseBehaviour

def injectRelayEvent (b : WhitenoiseBehaviour) (s : Shared) :
    RelayEvent → WhitenoiseBehaviour × Shared
  | .relayInbound x => ({ b with relayInStreams := b.relayInStreams ++ [x] }, s)
  | .relayOutbound x => ({ b with relayOutStreams := b.relayOutStreams ++ [x] }, s)
  | .disconnect peerId =>
    (b, { s with proxyRequests := s.proxyRequests ++ [⟨peerId, none, some .disconnect⟩] })

end WhitenoiseBehaviour

/-- `RequestResponseEvent`, its messages by whether they are requests. -/
inductive RequestResponseEvent (Q : Type) where
  | inboundFailure (peer : PeerId)
  | outboundFailure (peer : PeerId)
  | request (peer : PeerId) (request : Q)
  | response (peer : PeerId) (response : Bytes)
  | responseSent (peer : PeerId)
  deriving DecidableEq

/-- Only requests are passed on. -/
def injectProxyEvent (s : Shared) : RequestResponseEvent Request → Shared
  | .request peer request =>
    { s with proxyRequests := s.proxyRequests ++ [⟨peer, some request, none⟩] }
  | _ => s

def injectCmdEvent (s : Shared) : RequestResponseEvent Command → Shared
  | .request peer request => { s with cmdRequests := s.cmdRequests ++ [⟨peer, some request⟩] }
  | _ => s

def injectAckEvent (s : Shared) : RequestResponseEvent Ack → Shared
  | .request _ request => s.injectAck request
  | _ => s

inductive GossipsubEvent where
  | message (data : Bytes)
  | subscribed (peer : PeerId)
  | unsubscribed (peer : PeerId)
  deriving DecidableEq

/-- A client has no channel for gossip. -/
def injectGossipsubEvent (mode : RunMode) (s : Shared) : GossipsubEvent → Shared
  | .message data =>
    match mode with
    | .server => { s with gossip := s.gossip ++ [data] }
    | .client => s
  | _ => s

/-! ## Requests to the event loop -/

/-- An answer of the event loop, or a dropped sender. -/
inductive Answer where
  | mainNets (peers : Option (List NodeInfo))
  | published (ok : Option Bool)
  deriving DecidableEq

def Answer.choice : Answer → Choice
  | mainNets peers => .nodeInfos peers
  | published ok => .published ok

/-- What the tasks send to the event loop. The sender of an answer is named by the number of the
question. -/
inductive NodeRequest where
  | message (r : WhiteNoise.NodeRequest)
  | newStreamRequest (peerId : PeerId)
  | addPeerAddressesRequest (remotePeerId : PeerId) (remoteAddr : List String)
  | getMainNetsRequest (num : Int32) (sender : ℕ)
  | publishData (data : Bytes) (sender : ℕ)
  deriving DecidableEq

/-- The peer a stream is requested to. -/
def NodeRequest.newStream : NodeRequest → Option PeerId
  | newStreamRequest p => some p
  | _ => none

/-- The message the request carries is there. -/
def Full : WhiteNoise.NodeRequest → Bool
  | .proxyRequest r => r.proxyRequest.isSome
  | .cmdRequest r => r.cmdRequest.isSome
  | .ackRequest r => r.ackRequest.isSome

/-- What the event loop does to the other behaviours of the swarm. -/
inductive LoopOutput where
  | sendRequest (r : WhiteNoise.NodeRequest)
  | addAddress (remotePeerId : PeerId) (addr : String)
  | publish (data : Bytes)
  deriving DecidableEq

/-- The relay behaviour after a turn of the loop, what the turn did to the other behaviours and the
answer it gave. -/
structure Served where
  relay : Relay
  outputs : List LoopOutput
  answer : Option (ℕ × Answer)

/-- One turn of the loop, with the routing table it finds and whether gossipsub takes the message;
`none` is a failing unwrap. A client drops the senders of questions it does not answer. -/
def serve (mode : RunMode) (kbuckets : List (List MainNets.KadEntry)) (published : Bool)
    (relay : Relay) : NodeRequest → Option Served
  | .message r => if Full r then some ⟨relay, [.sendRequest r], none⟩ else none
  | .newStreamRequest peerId => some ⟨relay.newStream peerId, [], none⟩
  | .addPeerAddressesRequest peer addrs =>
    some
      { relay := { relay with addresses := Function.update relay.addresses peer (some addrs) }
        outputs := addrs.map (.addAddress peer)
        answer := none }
  | .getMainNetsRequest num sender =>
    match mode with
    | .server => some ⟨relay, [], some (sender, .mainNets (MainNets.getKadPeers kbuckets num))⟩
    | .client => some ⟨relay, [], some (sender, .mainNets none)⟩
  | .publishData data sender =>
    match mode with
    | .server =>
      if published then some ⟨relay, [.publish data], some (sender, .published true)⟩ else none
    | .client => some ⟨relay, [], some (sender, .published none)⟩

section

omit [Codec] [Crypto]

variable {mode : RunMode} {kbuckets : List (List MainNets.KadEntry)} {published : Bool}
  {relay : Relay} {r : NodeRequest}

/-- The loop leaves the events of the relay behaviour alone. -/
theorem serve_waiting {t : Served} (h : serve mode kbuckets published relay r = some t) :
    t.relay.waiting = relay.waiting := by
  cases r with
  | message r =>
    simp only [serve] at h
    split at h <;> cases h
    rfl
  | newStreamRequest | addPeerAddressesRequest =>
    cases h
    rfl
  | getMainNetsRequest =>
    cases mode <;> cases h <;> rfl
  | publishData =>
    cases mode with
    | server =>
      simp only [serve] at h
      split at h <;> cases h
      rfl
    | client =>
      cases h
      rfl

/-- A request for a stream becomes a dial. -/
theorem serve_diveEvents {t : Served} (h : serve mode kbuckets published relay r = some t) :
    t.relay.diveEvents = relay.diveEvents ++ (r.newStream.map .dial).toList := by
  cases r with
  | message r =>
    simp only [serve] at h
    split at h <;> cases h
    exact (List.append_nil _).symm
  | newStreamRequest =>
    cases h
    rfl
  | addPeerAddressesRequest =>
    cases h
    exact (List.append_nil _).symm
  | getMainNetsRequest =>
    cases mode <;> cases h <;> exact (List.append_nil _).symm
  | publishData =>
    cases mode with
    | server =>
      simp only [serve] at h
      split at h <;> cases h
      exact (List.append_nil _).symm
    | client =>
      cases h
      exact (List.append_nil _).symm

/-- The loop fails at a message that is missing and at one that gossipsub refuses. -/
theorem serve_eq_none_iff :
    serve mode kbuckets published relay r = none ↔
      (∃ m, r = .message m ∧ ¬ Full m) ∨
        mode = .server ∧ published = false ∧ ∃ data sender, r = .publishData data sender := by
  cases r with
  | message m => simp [serve]
  | newStreamRequest | addPeerAddressesRequest => simp [serve]
  | getMainNetsRequest => cases mode <;> simp [serve]
  | publishData => cases mode <;> cases published <;> simp [serve]

end

end WhiteNoise.Swarm
