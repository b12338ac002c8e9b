import WhiteNoise.Acks.Bus
import WhiteNoise.Stream.Conservation
import WhiteNoise.Swarm.Behaviour

/-! # A node above its swarm

The tasks of a node, its event loop, its behaviours and its connections run
together. A task that wants a stream looks through the queue of opened streams
itself, and what it sends to the event loop is served in turn. What libp2p does
between the handlers and the behaviours is left open.
-/

namespace WhiteNoise.Swarm

open Wire Process OutStreams

variable [Codec] [Crypto] {X : Type}

/-! ## Connections -/

/-- A connection: the commands on their way to its handler, the events of the handler on their way
to the behaviour, and the requests for a substream that have not been answered. A closed connection
keeps what was lost with its handler. -/
structure Connection (X : Type) where
  peer : PeerId
  handler : RelayHandler X := {}
  isOpen : Bool := true
  commands : List RelayHandlerInEvent := []
  notices : List (RelayHandlerOutEvent X) := []
  requested : ℕ := 0
  deriving DecidableEq

inductive ConnectionEvent (X : Type) where
  | inbound (stream : X)
  /-- a request for a substream succeeds -/
  | outbound (stream : X)
  | dialUpgradeError
  /-- the next command reaches the handler -/
  | command
  | poll
  | closed
  deriving DecidableEq

namespace Connection

/-- What the handler of an open connection does next. -/
def step (conn : Connection X) : ConnectionEvent X → Option (Connection X)
  | .inbound x =>
    if conn.isOpen then
      some { conn with handler := conn.handler.injectFullyNegotiatedInbound x }
    else none
  | .outbound x =>
    if conn.isOpen ∧ 0 < conn.requested then
      some { conn with
        handler := conn.handler.injectFullyNegotiatedOutbound x
        requested := conn.requested - 1 }
    else none
  | .dialUpgradeError =>
    if conn.isOpen ∧ 0 < conn.requested then
      some { conn with
        handler := conn.handler.injectDialUpgradeError
        requested := conn.requested - 1 }
    else none
  | .command =>
    match conn.commands with
    | [] => none
    | x :: commands =>
      if conn.isOpen then some { conn with handler := conn.handler.injectEvent x, commands }
      else none
  | .poll =>
    match conn.handler.poll with
    | none => none
    | some (.custom e, handler) =>
      if conn.isOpen then some { conn with handler, notices := conn.notices ++ [e] } else none
    | some (.outboundSubstreamRequest, handler) =>
      if conn.isOpen then some { conn with handler, requested := conn.requested + 1 } else none
  | .closed => some { conn with isOpen := false }

end Connection

/-! ## The machine -/

/-- A call of `new_relay_stream` that a thread waits for. -/
structure StreamCall where
  thread : ℕ
  call : Call
  resumed : Bool := false
  deriving DecidableEq

/-- A question to the event loop that a thread waits for, and what the thread finds if the sender
is dropped. -/
structure Question where
  thread : ℕ
  dropped : Answer
  answer : Option Answer := none
  taken : Bool := false
  deriving DecidableEq

/-- The tasks that `start` spawns. -/
def startTasks : RunMode → List Task
  | .client => [.processProxyRequest, .processCmdRequest]
  | .server => [.processPublishRequest, .processProxyRequest, .processCmdRequest]

/-- A node with all that runs below its tasks. `tasks` have been spawned to send the request for a
stream, `drawn` are the identifiers of streams in use. -/
structure Machine (X : Type) where
  mode : RunMode
  pool : NodePool
  alive : Bool := true
  behaviour : WhitenoiseBehaviour := {}
  connections : List (Connection X) := []
  nodeRequests : List NodeRequest := []
  calls : List StreamCall := []
  tasks : List PeerId := []
  questions : List Question := []
  drawn : List ℕ := []

inductive Event (X : Type) where
  /-- an operation of a thread that does not wait for the event loop -/
  | thread (i : ℕ) (c : WhiteNoise.Choice)
  /-- a thread calls `new_relay_stream` -/
  | newRelayStream (i : ℕ)
  | turn (j : ℕ)
  | send (j : ℕ)
  /-- the call returns to its thread -/
  | resume (j : ℕ)
  | ask (i : ℕ)
  | answered (j : ℕ)
  /-- a call of the application tells the addresses of a peer -/
  | addPeerAddresses (remotePeerId : PeerId) (remoteAddr : List String)
  /-- the accept loop takes a stream -/
  | accept
  | call (t : Task)
  | serve (kbuckets : List (List MainNets.KadEntry)) (published : Bool)
  /-- a poll of the relay behaviour, and the connection a notification goes to -/
  | poll (target : Option ℕ)
  /-- the next event of a handler reaches the behaviour -/
  | injectEvent (c : ℕ) (streamId : ℕ)
  | disconnected (peer : PeerId)
  | proxy (e : RequestResponseEvent Request)
  | cmd (e : RequestResponseEvent Command)
  | ack (e : RequestResponseEvent Ack)
  | gossipsub (e : GossipsubEvent)
  | established (peer : PeerId)
  | connection (c : ℕ) (e : ConnectionEvent X)
  | frame (streamId : ℕ) (res : ReadResult)

/-- What can be seen of the machine. -/
inductive Out (X : Type) where
  | node (o : Output)
  | loop (o : LoopOutput)
  | wrapped (c : ℕ) (e : RelayHandlerOutEvent X) (stream : WrappedStream)
  | disconnected (peer : PeerId)
  | generated (e : RelayEvent)
  | notified (c : ℕ) (e : RelayHandlerInEvent)
  | accepted (stream : WrappedStream)
  deriving DecidableEq

/-- The thread waits for the event loop in its next operation. -/
def waits : Thread → Bool
  | .act (.newRelayStream _) _ | .act (.getMainNets _) _ | .act (.publish _) _ => true
  | _ => false

def isFail : Thread → Bool
  | .fail => true
  | _ => false

/-- The loop that a request is for. -/
def RequestResponseEvent.receiver {Q : Type} (loop : Task) : RequestResponseEvent Q → Option Task
  | request _ _ => some loop
  | _ => none

/-- The loop that a message is for. -/
def GossipsubEvent.receiver (mode : RunMode) : GossipsubEvent → Option Task
  | message _ => if mode = .server then some .processPublishRequest else none
  | _ => none

/-- The loop that an event of the relay behaviour is for. -/
def RelayEvent.receiver : RelayEvent → Option Task
  | disconnect _ => some .processProxyRequest
  | _ => none

/-- The message the thread sends to the event loop in its next operation. -/
def sends : Thread → Option WhiteNoise.NodeRequest
  | .act (.send r) _ => some r
  | _ => none

namespace Machine

/-- An operation of a thread. A message that is sent after the loop has ended is a failing unwrap,
so it is the last operation of its thread. -/
def thread (node : Node) (m : Machine X) (i : ℕ) (c : Choice) :
    Option (Machine X × List (Out X)) :=
  match m.pool.threads[i]? with
  | none => none
  | some t =>
    if waits t ∨ (sends t).isSome ∧ m.alive = false then none
    else
      match (nodeSemantics node).step m.pool i c with
      | none => none
      | some (pool, os) =>
        some ({ m with
          pool
          nodeRequests := m.nodeRequests ++ ((sends t).map .message).toList }, os.map .node)

/-- A thread puts its question to the event loop. -/
def ask (m : Machine X) (i : ℕ) : Option (Machine X × List (Out X)) :=
  if m.alive = false ∨ m.questions.any fun q => q.thread = i && !q.taken then none
  else
    match m.pool.threads[i]? with
    | some (.act (.getMainNets num) _) =>
      some ({ m with
        questions := m.questions ++ [{ thread := i, dropped := .mainNets none }]
        nodeRequests := m.nodeRequests ++ [.getMainNetsRequest num m.questions.length] }, [])
    | some (.act (.publish data) _) =>
      some ({ m with
        questions := m.questions ++ [{ thread := i, dropped := .published none }]
        nodeRequests := m.nodeRequests ++ [.publishData data m.questions.length] }, [])
    | _ => none

/-- The answer to a question, if the thread can go on with one. -/
def settled (m : Machine X) (q : Question) : Option Answer :=
  if q.taken then none
  else
    match q.answer with
    | some c => some c
    | none => if m.alive then none else some q.dropped

/-- The thread goes on with the answer. -/
def answered (node : Node) (m : Machine X) (j : ℕ) : Option (Machine X × List (Out X)) :=
  match m.questions[j]? with
  | none => none
  | some q =>
    match m.settled q, m.pool.threads[q.thread]? with
    | some a, some t =>
      if waits t then
        match (nodeSemantics node).step m.pool q.thread a.choice with
        | none => none
        | some (pool, os) =>
          some ({ m with pool, questions := m.questions.set j { q with taken := true } },
            os.map .node)
      else none
    | _, _ => none

/-- The thread of a question goes on. -/
theorem answered_cases {node : Node} {m m' : Machine X} {j : ℕ} {o : List (Out X)}
    (h : m.answered node j = some (m', o)) : ∃ q a t pool os, m.questions[j]? = some q ∧
      m.settled q = some a ∧ m.pool.threads[q.thread]? = some t ∧ waits t ∧
      (nodeSemantics node).step m.pool q.thread a.choice = some (pool, os) ∧
      m' = { m with pool, questions := m.questions.set j { q with taken := true } } ∧
      o = os.map .node := by
  unfold answered at h
  split at h
  · cases h
  · next q hq =>
    split at h
    · next a t ha ht =>
      split at h
      · next hwaits =>
        split at h
        · cases h
        · next pool os hs =>
          cases h
          exact ⟨q, a, t, pool, os, hq, ha, ht, hwaits, hs, rfl, rfl⟩
      · cases h
    · cases h

/-- The result of a call, for its thread to go on with. -/
def resume (m : Machine X) (j : ℕ) : Option (Machine X × List (Out X)) :=
  match m.calls[j]? with
  | some ⟨i, ⟨p, .returned relayStream⟩, false⟩ =>
    match m.pool.threads[i]? with
    | some (.act (.newRelayStream p') k) =>
      if p' = p then
        let calls := m.calls.set j ⟨i, ⟨p, .returned relayStream⟩, true⟩
        let threads := m.pool.threads.set i (k relayStream)
        match relayStream with
        | none => some ({ m with pool := { m.pool with threads }, calls }, [])
        | some w =>
          let state := { m.pool.state with streams := w.streamId :: m.pool.state.streams }
          some ({ m with pool := { state, threads }, calls }, [.node (.opened w)])
      else none
    | _ => none
  | _ => none

/-- The event loop ends, and the requests to it are dropped. -/
def stop (m : Machine X) : Machine X := { m with alive := false, nodeRequests := [] }

/-- The loop that takes the messages has failed, and its channel is gone with it. -/
def failed (m : Machine X) (loop : Task) : Bool :=
  (m.pool.threads[(startTasks m.mode).idxOf loop]?).any isFail

/-- What the protocols report changes the shared state. A message for a loop that has failed is a
failing unwrap of the event loop, and then nothing is reported any more. -/
def report (m : Machine X) (loop : Option Task) (state : Shared) :
    Option (Machine X × List (Out X)) :=
  if m.alive then
    if loop.any m.failed then some (m.stop, [])
    else some ({ m with pool := { m.pool with state } }, [])
  else none

/-- A turn of the event loop, or its end. -/
def serve (m : Machine X) (kbuckets : List (List MainNets.KadEntry)) (published : Bool) :
    Option (Machine X × List (Out X)) :=
  match m.nodeRequests with
  | [] => none
  | r :: nodeRequests =>
    if m.alive then
      match Swarm.serve m.mode kbuckets published m.behaviour.relayBehaviour r with
      | none => some (m.stop, [])
      | some t =>
        some ({ m with
          nodeRequests
          behaviour := { m.behaviour with relayBehaviour := t.relay }
          questions :=
            match t.answer with
            | none => m.questions
            | some (sender, a) => m.questions.modify sender fun q => { q with answer := some a } },
          t.outputs.map .loop)
    else none

/-- A poll of the relay behaviour. A notification for a peer without a connection is dropped. -/
def poll (m : Machine X) (target : Option ℕ) : Option (Machine X × List (Out X)) :=
  if m.alive then
    match m.behaviour.relayBehaviour.poll with
    | none => none
    | some (.generateEvent e, relayBehaviour) =>
      let m := { m with behaviour := { m.behaviour with relayBehaviour } }
      let (behaviour, state) := m.behaviour.injectRelayEvent m.pool.state e
      if (e.receiver).any m.failed then some (m.stop, [.generated e])
      else some ({ m with behaviour, pool := { m.pool with state } }, [.generated e])
    | some (.notifyHandler p x, relayBehaviour) =>
      let behaviour := { m.behaviour with relayBehaviour }
      match target with
      | none => some ({ m with behaviour }, [])
      | some c =>
        match m.connections[c]? with
        | none => none
        | some conn =>
          if conn.peer = p then
            some ({ m with
              behaviour
              connections := m.connections.set c { conn with commands := conn.commands ++ [x] } },
              [.notified c x])
          else none
  else none

/-- The next event of a handler reaches the behaviour, its substream wrapped. -/
def injectEvent (m : Machine X) (c streamId : ℕ) : Option (Machine X × List (Out X)) :=
  match m.connections[c]? with
  | none => none
  | some conn =>
    match conn.notices with
    | [] => none
    | e :: notices =>
      if m.alive ∧ streamId ∉ m.drawn then
        some ({ m with
          behaviour := { m.behaviour with
            relayBehaviour := m.behaviour.relayBehaviour.injectEvent conn.peer streamId e }
          connections := m.connections.set c { conn with notices }
          drawn := streamId :: m.drawn }, [.wrapped c e ⟨conn.peer, streamId⟩])
      else none

def accept (node : Node) (m : Machine X) : Option (Machine X × List (Out X)) :=
  match m.behaviour.relayInStreams with
  | [] => none
  | w :: relayInStreams =>
    some ({ m with
      behaviour := { m.behaviour with relayInStreams }
      pool :=
        { state := { m.pool.state with streams := w.streamId :: m.pool.state.streams }
          threads := m.pool.threads ++ [Task.body node (.relayEventHandler w none)] } },
      [.accepted w])

def step (node : Node) (m : Machine X) : Event X → Option (Machine X × List (Out X))
  | .thread i c => m.thread node i c
  | .newRelayStream i =>
    match m.pool.threads[i]? with
    | some (.act (.newRelayStream p) _) =>
      if m.calls.any fun c => c.thread = i && !c.resumed then none
      else some ({ m with calls := m.calls ++ [⟨i, ⟨p, .spawn⟩, false⟩] }, [])
    | _ => none
  | .turn j =>
    match m.calls[j]? with
    | none => none
    | some c =>
      match c.call.point.next c.call.peerId m.behaviour.relayOutStreams with
      | none => none
      | some (point, relayOutStreams, spawned) =>
        some ({ m with
          behaviour := { m.behaviour with relayOutStreams }
          calls := m.calls.set j { c with call := ⟨c.call.peerId, point⟩ }
          tasks := m.tasks ++ spawned }, [])
  | .send j =>
    match m.tasks[j]? with
    | none => none
    | some p =>
      -- a request that cannot be sent is only logged
      some ({ m with
        tasks := m.tasks.eraseIdx j
        nodeRequests :=
          if m.alive then m.nodeRequests ++ [.newStreamRequest p] else m.nodeRequests }, [])
  | .resume j => m.resume j
  | .ask i => m.ask i
  | .answered j => m.answered node j
  | .addPeerAddresses peer addrs =>
    if m.alive then
      some ({ m with nodeRequests := m.nodeRequests ++ [.addPeerAddressesRequest peer addrs] }, [])
    else none
  | .accept => m.accept node
  | .call t => some ({ m with
      pool := { m.pool with threads := m.pool.threads ++ [Task.body node t] } }, [])
  | .serve kbuckets published => m.serve kbuckets published
  | .poll target => m.poll target
  | .injectEvent c streamId => m.injectEvent c streamId
  | .disconnected peer =>
    if m.alive then
      some ({ m with behaviour := { m.behaviour with
        relayBehaviour := m.behaviour.relayBehaviour.injectDisconnected peer } },
        [.disconnected peer])
    else none
  | .proxy e => m.report (e.receiver .processProxyRequest) (injectProxyEvent m.pool.state e)
  | .cmd e => m.report (e.receiver .processCmdRequest) (injectCmdEvent m.pool.state e)
  | .ack e => m.report none (injectAckEvent m.pool.state e)
  | .gossipsub e => m.report (e.receiver m.mode) (injectGossipsubEvent m.mode m.pool.state e)
  | .established peer => some ({ m with connections := m.connections ++ [{ peer }] }, [])
  | .connection c e =>
    match m.connections[c]? with
    | none => none
    | some conn =>
      match conn.step e with
      | none => none
      | some conn => some ({ m with connections := m.connections.set c conn }, [])
  | .frame streamId res =>
    some ({ m with pool := { m.pool with state := m.pool.state.pushFrame streamId res } }, [])

def start (X : Type) (node : Node) (mode : RunMode) : Machine X where
  mode := mode
  pool := Acks.start node (startTasks mode)

end Machine

end WhiteNoise.Swarm
