import WhiteNoise.Network.PublishEventHandler
import WhiteNoise.Process.Survival

/-! # A running node

The tasks of a node run as threads over its shared state. The network reaches
the node through events: frames, acknowledgements, requests and new streams.
-/

namespace WhiteNoise

open Wire Process

variable [Codec] [Crypto]

def Task.body (node : Node) : Task → Async (Option Task)
  | relayEventHandler stream sessionId => WhiteNoise.relayEventHandler stream sessionId
  | writeRelayArc stream relay => do
    let _ ← WhiteNoise.writeRelayArc stream relay
    return none
  | processHandshake circuitConn initiate sessionId => do
    WhiteNoise.processHandshake node circuitConn initiate sessionId
    return none
  | processProxyRequest => do
    WhiteNoise.processProxyRequest node (← Prog.call Act.nextProxyRequest)
    return some processProxyRequest
  | processCmdRequest => do
    WhiteNoise.processCmdRequest (← Prog.call Act.nextCmdRequest)
    return some processCmdRequest
  | processPublishRequest => do
    WhiteNoise.processPublishRequest node (← Prog.call Act.nextGossip)
    return some processPublishRequest
  | registerProxy remotePeerId => do
    let _ ← Node.registerProxy node remotePeerId
    return none
  | getMainNets cnt remotePeerId => do
    let _ ← Node.getMainNets cnt remotePeerId
    return none
  | dial remoteWhitenoiseId => do
    let _ ← Node.dial node remoteWhitenoiseId
    return none
  | disconnectCircuit sessionId => do
    Node.handleCloseSession sessionId
    return none

/-- A thread of a node. -/
abbrev Thread := Async (Option Task)

/-- The threads of a node over its shared state. -/
abbrev NodePool := Pool Shared Act.Res Task

def nodeSemantics (node : Node) : Semantics Shared Act.Res Task Choice Output :=
  ⟨Shared.reply, Task.body node⟩

section

variable {node : Node} {s : Shared} {c : Choice} {r : Reply Shared Task Output Thread}

/-- The padding is drawn, and nothing else happens. -/
theorem advance_randomBelow {n : ℕ} {k : Bytes → Thread}
    (h : (nodeSemantics node).advance c s (.act (.randomBelow n) k) = some r) :
    ∃ b, r = ⟨k b, s, [], []⟩ := by
  cases c with
  | bytes b =>
    simp only [Semantics.advance, nodeSemantics, Shared.reply] at h
    split at h
    · cases h
    · next r' hr' =>
      split at hr'
      · cases hr'
        exact ⟨b, (Option.some.inj h).symm⟩
      · cases hr'
  | _ => cases h

/-- The stream is opened, or it cannot be. -/
theorem advance_newRelayStream {peer : PeerId} {k : Option WrappedStream → Thread}
    (h : (nodeSemantics node).advance c s (.act (.newRelayStream peer) k) = some r) :
    (∃ w, c = .stream (some w) ∧ w.remotePeerId = peer ∧ w.streamId ∉ s.streams ∧
      r = ⟨k (some w), { s with streams := w.streamId :: s.streams }, [.opened w], []⟩) ∨
    r = ⟨k none, s, [], []⟩ := by
  cases c with
  | stream o =>
    cases o with
    | none =>
      cases h
      exact Or.inr rfl
    | some w =>
      simp only [Semantics.advance, nodeSemantics, Shared.reply] at h
      split at h
      · cases h
      · next r' hr' =>
        split at hr'
        · next hw =>
          cases hr'
          exact Or.inl ⟨w, rfl, hw.1, hw.2, (Option.some.inj h).symm⟩
        · cases hr'
  | _ => cases h

end

/-! ## What a request leaves alone -/

/-- What the locks protect is the same in both states. -/
structure Shared.SameMaps (s s' : Shared) : Prop where
  eventBus : s'.eventBus = s.eventBus
  circuitTask : s'.circuitTask = s.circuitTask
  clientWnMap : s'.clientWnMap = s.clientWnMap
  clientPeerMap : s'.clientPeerMap = s.clientPeerMap
  sessionMap : s'.sessionMap = s.sessionMap
  circuitMap : s'.circuitMap = s.circuitMap
  probeMap : s'.probeMap = s.probeMap
  oneshots : s'.oneshots = s.oneshots
  nextOneshot : s'.nextOneshot = s.nextOneshot
  nextChannel : s'.nextChannel = s.nextChannel
  transports : s'.transports = s.transports
  nextTransport : s'.nextTransport = s.nextTransport

/-- A request that starts no task and reads no stream. -/
def Act.Plain : Act → Prop
  | .spawn _ | .read _ => False
  | _ => True

omit [Codec] [Crypto] in
theorem Act.plain_or (a : Act) : a.Plain ∨ (∃ t, a = .spawn t) ∨ ∃ w, a = .read w := by
  cases a with
  | spawn t => exact Or.inr (Or.inl ⟨t, rfl⟩)
  | read w => exact Or.inr (Or.inr ⟨w, rfl⟩)
  | _ => exact Or.inl trivial

section

variable {s : Shared} {c : Choice}

omit [Codec] in
theorem Shared.dequeue_eq_some {α : Type} {q : List α} {f : List α → Shared}
    {x : Reply Shared Task Output α} (h : Shared.dequeue q f = some x) :
    ∃ a as, q = a :: as ∧ x = ⟨a, f as, [], []⟩ := by
  cases q with
  | nil => cases h
  | cons a as => exact ⟨a, as, rfl, (Option.some.inj h).symm⟩

omit [Codec] in
/-- No answer of the environment touches a map. -/
theorem reply_sameMaps {a : Act} {x : Reply Shared Task Output a.Res}
    (h : Shared.reply a c s = some x) : s.SameMaps x.state := by
  unfold Shared.reply at h
  split at h
  all_goals first
    | (obtain ⟨_, _, -, rfl⟩ := Shared.dequeue_eq_some h
       exact ⟨rfl, rfl, rfl, rfl, rfl, rfl, rfl, rfl, rfl, rfl, rfl, rfl⟩)
    | (cases h <;> exact ⟨rfl, rfl, rfl, rfl, rfl, rfl, rfl, rfl, rfl, rfl, rfl, rfl⟩)
    | (split at h <;> cases h <;>
        exact ⟨rfl, rfl, rfl, rfl, rfl, rfl, rfl, rfl, rfl, rfl, rfl, rfl⟩)

omit [Codec] in
theorem reply_plain {a : Act} {x : Reply Shared Task Output a.Res} (ha : a.Plain)
    (h : Shared.reply a c s = some x) : x.state.inbox = s.inbox ∧ x.spawned = [] := by
  unfold Shared.reply at h
  split at h
  all_goals first
    | exact ha.elim
    | (obtain ⟨_, _, -, rfl⟩ := Shared.dequeue_eq_some h
       exact ⟨rfl, rfl⟩)
    | (cases h <;> exact ⟨rfl, rfl⟩)
    | (split at h <;> cases h <;> exact ⟨rfl, rfl⟩)

end

/-- What happens at a node. `call` is a call of the application. -/
inductive Event where
  | thread (i : ℕ) (c : Choice)
  | ack (peer : PeerId) (ack : Ack)
  | proxyRequest (r : NodeProxyRequest)
  | cmdRequest (r : NodeCmdRequest)
  | gossip (data : Bytes)
  | frame (streamId : ℕ) (res : ReadResult)
  | inbound (stream : WrappedStream)
  | call (t : Task)

namespace Shared

/-- An acknowledgement resolves the waiter under its `command_id`, whichever peer sent it. -/
def injectAck (ack : Ack) (s : Shared) : Shared :=
  match s.eventBus ack.commandId with
  | none => s
  | some sender =>
    { s with
      eventBus := Function.update s.eventBus ack.commandId none
      oneshots := Function.update s.oneshots sender (.sent ack) }

/-- `start_poll` puts a frame or its final error into the incoming channel of the stream. -/
def pushFrame (streamId : ℕ) (res : ReadResult) (s : Shared) : Shared :=
  { s with inbox := Function.update s.inbox streamId (s.inbox streamId ++ [res]) }

end Shared

/-- One event at a node. -/
def nodeStep (node : Node) (p : NodePool) : Event → Option (NodePool × List Output)
  | .thread i c => (nodeSemantics node).step p i c
  | .ack _ ack => some ({ p with state := p.state.injectAck ack }, [])
  | .proxyRequest r =>
    some ({ p with state := { p.state with
      proxyRequests := p.state.proxyRequests ++ [r] } }, [])
  | .cmdRequest r =>
    some ({ p with state := { p.state with cmdRequests := p.state.cmdRequests ++ [r] } }, [])
  | .gossip data =>
    some ({ p with state := { p.state with gossip := p.state.gossip ++ [data] } }, [])
  | .frame streamId res => some ({ p with state := p.state.pushFrame streamId res }, [])
  | .inbound stream =>
    if stream.streamId ∈ p.state.streams then none else
    some ({ state := { p.state with streams := stream.streamId :: p.state.streams }
            threads := p.threads ++ [Task.body node (.relayEventHandler stream none)] }, [])
  | .call t => some ({ p with threads := p.threads ++ [Task.body node t] }, [])

/-- An event that is no turn of a thread leaves the sessions, circuits and probes alone and can only
start tasks. -/
theorem nodeStep_arrival {node : Node} {p p' : NodePool} {e : Event} {os : List Output}
    (he : ∀ i c, e ≠ .thread i c) (h : nodeStep node p e = some (p', os)) :
    p'.state.sessionMap = p.state.sessionMap ∧ p'.state.circuitMap = p.state.circuitMap ∧
      p'.state.probeMap = p.state.probeMap ∧
      ∃ ts : List Task, p'.threads = p.threads ++ ts.map (Task.body node) := by
  cases e with
  | thread i c => exact absurd rfl (he i c)
  | ack peer ack =>
    obtain ⟨rfl, -⟩ := Prod.mk.inj (Option.some.inj h)
    simp only [Shared.injectAck]
    split <;> exact ⟨rfl, rfl, rfl, [], (List.append_nil _).symm⟩
  | proxyRequest | cmdRequest | gossip | frame =>
    obtain ⟨rfl, -⟩ := Prod.mk.inj (Option.some.inj h)
    exact ⟨rfl, rfl, rfl, [], (List.append_nil _).symm⟩
  | inbound stream =>
    simp only [nodeStep] at h
    split at h
    · cases h
    · obtain ⟨rfl, -⟩ := Prod.mk.inj (Option.some.inj h)
      exact ⟨rfl, rfl, rfl, [.relayEventHandler stream none], rfl⟩
  | call t =>
    obtain ⟨rfl, -⟩ := Prod.mk.inj (Option.some.inj h)
    exact ⟨rfl, rfl, rfl, [t], rfl⟩

/-! ## One thread that survives -/

section

variable {node : Node} {proviso : Proviso Shared Choice Act.Res} {Q : Option Task → Prop}
  {p p' : NodePool} {i : ℕ} {es : List Event} {os : List Output}

/-- The turns of thread `i` meet the proviso. -/
def Heeds (proviso : Proviso Shared Choice Act.Res) (i : ℕ) (p : NodePool) (e : Event) : Prop :=
  ∀ c t, e = .thread i c → p.threads[i]? = some t → proviso.Holds p.state c t

/-- A thread that survives is alive after every run whose turns of it meet the proviso. -/
theorem alive_run
    (hbody : ∀ task, Q (some task) → (nodeSemantics node).Survives proviso Q (Task.body node task))
    (h₀ : (nodeSemantics node).Alive proviso Q i p) (hC : Meets (Heeds proviso i) (nodeStep node) p es)
    (h : run (nodeStep node) p es = some (p', os)) : (nodeSemantics node).Alive proviso Q i p' := by
  refine run_induction_meets (P := fun _ p _ => (nodeSemantics node).Alive proviso Q i p) h₀ ?_ hC h
  intro _ p _ e p' os halive hheed hs
  by_cases he : ∃ j c, e = .thread j c
  · obtain ⟨j, c, rfl⟩ := he
    apply halive.step hbody _ hs
    rintro rfl t ht
    exact hheed c t rfl ht
  · obtain ⟨-, -, -, ts, hts⟩ := nodeStep_arrival (fun i c heq => he ⟨i, c, heq⟩) hs
    exact halive.append hts

end

end WhiteNoise
