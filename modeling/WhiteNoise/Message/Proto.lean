import WhiteNoise.Wire.Proto

/-! # The messages

The record types and enumerations of `relay.proto`, `command.proto`,
`request.proto`, `gossip.proto` and `payload.proto`.
-/

namespace WhiteNoise

open Wire

/-- `relaytype`, the kinds of frame on a relay stream. -/
inductive Relaytype where
  | setSessionId | ack | data | disconnect | wake | probe | success
  deriving DecidableEq, Repr

def Relaytype.toI32 : Relaytype → Int32
  | setSessionId => 0
  | ack => 1
  | data => 2
  | disconnect => 3
  | wake => 4
  | probe => 5
  | success => 6

/-- One frame on a relay stream. The kind is a raw integer, as it is decoded. -/
structure Relay where
  id : String
  type : Int32
  data : Bytes
  confusion : Bytes
  deriving DecidableEq

structure SetSessionIdMsg where
  sessionId : String
  role : Int32
  deriving DecidableEq

structure RelayMsg where
  sessionId : String
  data : Bytes
  deriving DecidableEq

structure ProbeSignal where
  sessionId : String
  data : Bytes
  deriving DecidableEq

structure Disconnect where
  sessionId : String
  errCode : Int32
  deriving DecidableEq

structure CircuitSuccess where
  sessionId : String
  deriving DecidableEq

/-- `cmdtype`, the kinds of command. -/
inductive Cmdtype where
  | sessionExPend | disconnect
  deriving DecidableEq, Repr

def Cmdtype.toI32 : Cmdtype → Int32
  | sessionExPend => 0
  | disconnect => 1

structure Command where
  commandId : String
  type : Int32
  fromId : String
  data : Bytes
  deriving DecidableEq

structure SessionExpend where
  sessionId : String
  peerId : String
  deriving DecidableEq

structure Ack where
  commandId : String
  result : Bool
  data : Bytes
  deriving DecidableEq

/-- `reqtype`, the kinds of proxy request. -/
inductive Reqtype where
  | getOnlineNodes | newProxy | newCircuit | decryptGossip | negPlainText | unRegisterType
  | mainNetPeers
  deriving DecidableEq, Repr

def Reqtype.toI32 : Reqtype → Int32
  | getOnlineNodes => 0
  | newProxy => 1
  | newCircuit => 2
  | decryptGossip => 3
  | negPlainText => 4
  | unRegisterType => 5
  | mainNetPeers => 6

structure Request where
  reqId : String
  fromId : String
  reqtype : Int32
  data : Bytes
  deriving DecidableEq

structure NewCircuit where
  fromId : String
  toId : String
  sessionId : String
  deriving DecidableEq

structure NewProxy where
  time : String
  whiteNoiseId : String
  deriving DecidableEq

structure Decrypt where
  destination : String
  cypher : Bytes
  deriving DecidableEq

structure NegPlaintext where
  sessionId : String
  neg : Bytes
  deriving DecidableEq

structure MainNetPeers where
  max : Int32
  deriving DecidableEq

structure NodeInfo where
  id : String
  addr : List String
  deriving DecidableEq

structure PeersList where
  peers : List NodeInfo
  deriving DecidableEq

structure Negotiate where
  join : String
  sessionId : String
  destination : String
  sig : Bytes
  deriving DecidableEq

structure EncryptedNeg where
  des : String
  cypher : Bytes
  deriving DecidableEq

structure NoiseHandshakePayload where
  identityKey : Bytes
  identitySig : Bytes
  data : Bytes
  deriving DecidableEq

end WhiteNoise
