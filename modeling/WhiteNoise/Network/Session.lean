import WhiteNoise.Message.Codec

/-! # Sessions and streams

The values the maps of a node hold: streams, sessions, circuit connections,
probes and registered clients.
-/

namespace WhiteNoise

open Wire

/-- A peer identity, by its base58 text. -/
structure PeerId where
  toBase58 : String
  deriving DecidableEq

/-- One end of a relay substream. The identifier is drawn when the stream is wrapped, so the
two ends of a substream have different ones. -/
structure WrappedStream where
  remotePeerId : PeerId
  streamId : ℕ
  deriving DecidableEq

inductive SessionRole where
  | callerRole | entryRole | sinkRole | relayRole | accessRole | answerRole
  deriving DecidableEq, Repr

def SessionRole.toI32 : SessionRole → Int32
  | callerRole => 1
  | entryRole => 2
  | sinkRole => 3
  | relayRole => 4
  | accessRole => 5
  | answerRole => 6

structure PairStream where
  earlyStream : Option WrappedStream
  laterStream : Option WrappedStream
  deriving DecidableEq

/-- A session as one node sees it. The role is a raw integer, since it comes off the wire. -/
structure Session where
  id : String
  pairStream : PairStream
  sessionRole : Int32
  deriving DecidableEq

/-- Both streams are there. -/
def Session.ready (s : Session) : Bool :=
  s.pairStream.earlyStream.isSome && s.pairStream.laterStream.isSome

/-- A circuit connection. The incoming channel and the transport state are shared by all clones,
so they are references. -/
structure CircuitConn where
  id : String
  outStream : WrappedStream
  inChannel : ℕ
  transportState : Option ℕ
  deriving DecidableEq

structure Probe where
  sessionId : String
  rand : Bytes
  deriving DecidableEq

structure ClientInfo where
  whitenoiseId : String
  peerId : PeerId
  state : Int32
  time : ℕ
  deriving DecidableEq

/-- `ReadOneError`, by what `start_poll` and `read_one` put into it. -/
inductive ReadOneError where
  | io (text : String)
  | tooLarge (requested max : ℕ)
  deriving DecidableEq

/-- What a read on a stream yields: one frame or an error. -/
abbrev ReadResult := Except ReadOneError Bytes

inductive PeerOperation where
  | disconnect
  deriving DecidableEq

structure NodeProxyRequest where
  remotePeerId : PeerId
  proxyRequest : Option Request
  peerOperation : Option PeerOperation
  deriving DecidableEq

structure NodeCmdRequest where
  remotePeerId : PeerId
  cmdRequest : Option Command
  deriving DecidableEq

structure NodeAckRequest where
  remotePeerId : PeerId
  ackRequest : Option Ack
  deriving DecidableEq

/-- The requests to the swarm that leave the node. -/
inductive NodeRequest where
  | proxyRequest (r : NodeProxyRequest)
  | cmdRequest (r : NodeCmdRequest)
  | ackRequest (r : NodeAckRequest)
  deriving DecidableEq

/-- The receiving end of a oneshot channel: nothing yet, the value, or a dropped sender. -/
inductive Oneshot where
  | empty
  | sent (ack : Ack)
  | dropped
  deriving DecidableEq

end WhiteNoise
