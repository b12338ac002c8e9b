import WhiteNoise.Process.Pool
import WhiteNoise.Network.Crypto

/-! # The shared state of a node and what its tasks ask for

All clones of a node share the maps below, each behind its own lock. A task
takes a lock for one operation at a time; everything else it does is a request
to the environment, which an open choice resolves.
-/

namespace WhiteNoise

open Wire Process

variable [Codec] [Crypto]

/-- A cloneable handle of a node: what its clones do not share. -/
structure Node where
  keypair : Crypto.Keypair
  proxyId : Option PeerId
  bootPeerId : Option PeerId

def Node.getId (node : Node) : String := (Crypto.peerId node.keypair).toBase58

/-- The maps and queues all clones of a node share. References (`oneshots`, `channels`,
`transports`) are allocated in order; `streams` are the stream identifiers in use. -/
structure Shared where
  eventBus : String → Option ℕ := fun _ => none
  circuitTask : String → Option Bytes := fun _ => none
  clientWnMap : String → Option ClientInfo := fun _ => none
  clientPeerMap : String → Option String := fun _ => none
  sessionMap : String → Option Session := fun _ => none
  circuitMap : String → Option CircuitConn := fun _ => none
  probeMap : String → Option Probe := fun _ => none
  oneshots : ℕ → Oneshot := fun _ => .empty
  nextOneshot : ℕ := 0
  channels : ℕ → List Bytes := fun _ => []
  nextChannel : ℕ := 0
  transports : ℕ → Option Crypto.Transport := fun _ => none
  nextTransport : ℕ := 0
  streams : List ℕ := []
  inbox : ℕ → List ReadResult := fun _ => []
  proxyRequests : List NodeProxyRequest := []
  cmdRequests : List NodeCmdRequest := []
  gossip : List Bytes := []

/-- The asynchronous functions that are spawned as tasks of their own. -/
inductive Task where
  | relayEventHandler (stream : WrappedStream) (sessionId : Option String)
  | writeRelayArc (stream : WrappedStream) (relay : Relay)
  | processHandshake (circuitConn : CircuitConn) (initiate : Bool) (sessionId : String)
  | processProxyRequest
  | processCmdRequest
  | processPublishRequest
  | registerProxy (remotePeerId : PeerId)
  | getMainNets (cnt : Int32) (remotePeerId : PeerId)
  | dial (remoteWhitenoiseId : String)
  | disconnectCircuit (sessionId : String)
  deriving DecidableEq

/-- What a task asks of the environment. -/
inductive Act where
  | spawn (t : Task)
  | newRelayStream (peerId : PeerId)
  | write (stream : WrappedStream) (data : Bytes)
  | read (stream : WrappedStream)
  | close (stream : WrappedStream)
  | send (r : NodeRequest)
  | awaitAck (receiver : ℕ)
  | getMainNets (num : Int32)
  | publish (data : Bytes)
  | nextProxyRequest
  | nextCmdRequest
  | nextGossip
  | nextData (channel : ℕ)
  | randomBytes
  | randomBelow (bound : ℕ)
  | randomUsize
  | randomPeerId
  | now

/-- What the environment answers. -/
abbrev Act.Res : Act → Type
  | spawn _ => Unit
  | newRelayStream _ => Option WrappedStream
  | write _ _ => Unit
  | read _ => ReadResult
  | close _ => Unit
  | send _ => Unit
  | awaitAck _ => Option Ack
  | getMainNets _ => Option (List NodeInfo)
  | publish _ => Option Bool
  | nextProxyRequest => NodeProxyRequest
  | nextCmdRequest => NodeCmdRequest
  | nextGossip => Bytes
  | nextData _ => Bytes
  | randomBytes => Bytes
  | randomBelow _ => Bytes
  | randomUsize => UInt64
  | randomPeerId => PeerId
  | now => ℕ

/-- The asynchronous functions of the code. -/
abbrev Async := Prog Shared Act.Res

/-- What leaves a node. -/
inductive Output where
  | write (stream : WrappedStream) (data : Bytes)
  | close (stream : WrappedStream)
  | request (r : NodeRequest)
  | opened (stream : WrappedStream)
  | published (data : Bytes)
  deriving DecidableEq

/-- How the environment resolves a request that the shared state does not determine. -/
inductive Choice where
  | go
  | stream (s : Option WrappedStream)
  | bytes (b : Bytes)
  | usize (n : UInt64)
  | peer (p : PeerId)
  | nodeInfos (l : Option (List NodeInfo))
  | published (b : Option Bool)
  | micros (n : ℕ)

namespace Shared

variable {α : Type}

/-- Take the head of a queue; an empty queue blocks. -/
def dequeue (q : List α) (s : List α → Shared) : Option (Reply Shared Task Output α) :=
  match q with
  | [] => none
  | a :: as => some ⟨a, s as, [], []⟩

/-- The answers of the environment. A request it cannot answer yet blocks its task. -/
def reply : (a : Act) → Choice → Shared → Option (Reply Shared Task Output a.Res)
  | .spawn t, _, s => some ⟨(), s, [], [t]⟩
  | .newRelayStream p, .stream (some w), s =>
    if w.remotePeerId = p ∧ w.streamId ∉ s.streams then
      some ⟨some w, { s with streams := w.streamId :: s.streams }, [.opened w], []⟩
    else none
  | .newRelayStream _, .stream none, s => some ⟨none, s, [], []⟩
  | .write w b, _, s => some ⟨(), s, [.write w b], []⟩
  | .read w, _, s =>
    dequeue (s.inbox w.streamId) fun q =>
      { s with inbox := Function.update s.inbox w.streamId q }
  | .close w, _, s => some ⟨(), s, [.close w], []⟩
  | .send r, _, s => some ⟨(), s, [.request r], []⟩
  | .awaitAck w, _, s =>
    match s.oneshots w with
    | .empty => none
    | .sent a => some ⟨some a, s, [], []⟩
    | .dropped => some ⟨none, s, [], []⟩
  | .getMainNets _, .nodeInfos l, s => some ⟨l, s, [], []⟩
  | .publish b, .published r, s => some ⟨r, s, [.published b], []⟩
  | .nextProxyRequest, _, s => dequeue s.proxyRequests fun q => { s with proxyRequests := q }
  | .nextCmdRequest, _, s => dequeue s.cmdRequests fun q => { s with cmdRequests := q }
  | .nextGossip, _, s => dequeue s.gossip fun q => { s with gossip := q }
  | .nextData c, _, s =>
    dequeue (s.channels c) fun q => { s with channels := Function.update s.channels c q }
  | .randomBytes, .bytes b, s => some ⟨b, s, [], []⟩
  | .randomBelow n, .bytes b, s => if b.length < n then some ⟨b, s, [], []⟩ else none
  | .randomUsize, .usize n, s => some ⟨n, s, [], []⟩
  | .randomPeerId, .peer p, s => some ⟨p, s, [], []⟩
  | .now, .micros n, s => some ⟨n, s, [], []⟩
  | _, _, _ => none

/-- A new oneshot channel, its sender under the key. The sender it displaces is dropped. -/
def register (key : String) (s : Shared) : Shared :=
  { s with
    eventBus := Function.update s.eventBus key (some s.nextOneshot)
    nextOneshot := s.nextOneshot + 1
    oneshots := match s.eventBus key with
      | none => s.oneshots
      | some old => Function.update s.oneshots old .dropped }

end Shared

/-! ## Single operations -/

namespace Async

/-- `session_map.read().unwrap().get(sid).cloned()` -/
def getSession (sid : String) : Async (Option Session) := Prog.read fun s => s.sessionMap sid

/-- `session_map.write().unwrap().insert(sid, session)` -/
def insertSession (sid : String) (session : Session) : Async Unit :=
  Prog.write fun s => { s with sessionMap := Function.update s.sessionMap sid (some session) }

/-- `session_map.write().unwrap().remove(sid)` -/
def removeSession (sid : String) : Async (Option Session) :=
  Prog.update (fun s => { s with sessionMap := Function.update s.sessionMap sid none })
    fun s => s.sessionMap sid

def getCircuit (sid : String) : Async (Option CircuitConn) := Prog.read fun s => s.circuitMap sid

def insertCircuit (sid : String) (conn : CircuitConn) : Async Unit :=
  Prog.write fun s => { s with circuitMap := Function.update s.circuitMap sid (some conn) }

def removeCircuit (sid : String) : Async Unit :=
  Prog.write fun s => { s with circuitMap := Function.update s.circuitMap sid none }

def getProbe (sid : String) : Async (Option Probe) := Prog.read fun s => s.probeMap sid

def insertProbe (sid : String) (probe : Probe) : Async Unit :=
  Prog.write fun s => { s with probeMap := Function.update s.probeMap sid (some probe) }

def removeProbe (sid : String) : Async Unit :=
  Prog.write fun s => { s with probeMap := Function.update s.probeMap sid none }

/-- Make a oneshot channel and put its sender into `event_bus`. -/
def registerWaiter (key : String) : Async ℕ :=
  Prog.update (Shared.register key) fun s => s.nextOneshot

/-- Make the channel of a circuit connection. -/
def newChannel : Async ℕ :=
  Prog.update (fun s => { s with nextChannel := s.nextChannel + 1 }) fun s => s.nextChannel

/-- Put a transport state behind a shared reference. -/
def newTransport (t : Crypto.Transport) : Async ℕ :=
  Prog.update
    (fun s => { s with
      transports := Function.update s.transports s.nextTransport (some t)
      nextTransport := s.nextTransport + 1 })
    fun s => s.nextTransport

def spawn (t : Task) : Async Unit := Prog.call (Act.spawn t)

def newRelayStream (peerId : PeerId) : Async (Option WrappedStream) :=
  Prog.call (Act.newRelayStream peerId)

def write (stream : WrappedStream) (data : Bytes) : Async Unit := Prog.call (Act.write stream data)

def close (stream : WrappedStream) : Async Unit := Prog.call (Act.close stream)

def send (r : NodeRequest) : Async Unit := Prog.call (Act.send r)

/-- `receiver.await.unwrap()` of the oneshot channel of a request -/
def awaitAck (receiver : ℕ) : Async Ack := do
  Prog.unwrap (← Prog.call (Act.awaitAck receiver))

end Async

end WhiteNoise
