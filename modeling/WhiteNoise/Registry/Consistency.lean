import WhiteNoise.Network.Ideal
import WhiteNoise.Network.System
import WhiteNoise.Registry.Inverse

/-! # The registry of clients

The proxy request loop keeps `client_peer_map` and `client_wn_map`. A new proxy
is refused when its identity is registered, but not when its peer is, so the
maps stay mutually inverse as long as no registered peer registers again.
-/

namespace WhiteNoise.Registry

open Wire Process

section Loop

variable [Codec] [Crypto]

/-- `client_peer_map` names an identity under a peer exactly when `client_wn_map` has the peer
under the identity. -/
def Consistent (s : Shared) : Prop :=
  Inverse s.clientPeerMap s.clientWnMap fun info => info.peerId.toBase58

/-- No entry of either map refers to the peer. -/
def Absent (s : Shared) (peer : PeerId) : Prop :=
  s.clientPeerMap peer.toBase58 = none ∧
    ∀ h info, s.clientWnMap h = some info → info.peerId.toBase58 ≠ peer.toBase58

/-- The peer disconnects or unregisters. -/
def Unregisters (r : NodeProxyRequest) : Prop :=
  r.peerOperation = some .disconnect ∨
    r.peerOperation = none ∧
      ∃ request, r.proxyRequest = some request ∧ request.reqtype = Reqtype.unRegisterType.toI32

/-- The peer registers an identity. -/
def Registers (r : NodeProxyRequest) (request : Request) : Prop :=
  r.peerOperation = none ∧ r.proxyRequest = some request ∧
    request.reqtype = Reqtype.newProxy.toI32

def IsRegistry (r : NodeProxyRequest) : Prop := Unregisters r ∨ ∃ request, Registers r request

/-- The hash of the identity in a new proxy request. -/
def newProxyHash (request : Request) : Option String := do
  let newProxy : NewProxy ← Codec.decode request.data
  fromWhitenoiseToHash newProxy.whiteNoiseId

/-- The hash of the identity that the request registers. -/
def registering (r : NodeProxyRequest) : Option String :=
  if r.peerOperation = none then
    match r.proxyRequest with
    | none => none
    | some request =>
      if request.reqtype = Reqtype.newProxy.toI32 then newProxyHash request else none
  else none

/-- If the request registers an identity that is not registered, its peer is not registered
either. -/
def Fits (s : Shared) (r : NodeProxyRequest) : Prop :=
  ∀ h ∈ registering r, s.clientWnMap h = none → s.clientPeerMap r.remotePeerId.toBase58 = none

instance (s : Shared) (r : NodeProxyRequest) : Decidable (Fits s r) :=
  inferInstanceAs (Decidable (∀ h ∈ registering r, _ → _))

/-! ## The loop on its own -/

/-- A request arrives, or the loop takes its next operation. -/
inductive LoopEvent where
  | arrive (r : NodeProxyRequest)
  | turn (c : Choice)

/-- Whether a thread waits for the next request. -/
def isWaiting : Thread → Bool
  | .act .nextProxyRequest _ => true
  | _ => false

/-- The request the next turn takes from the queue. -/
def taken (p : NodePool) : Option NodeProxyRequest :=
  if p.threads.all isWaiting then p.state.proxyRequests.head? else none

/-- One event; the requests the loop takes are its outputs. -/
def step (node : Node) (p : NodePool) : LoopEvent → Option (NodePool × List NodeProxyRequest)
  | .arrive r =>
    some ({ p with state := { p.state with
      proxyRequests := p.state.proxyRequests ++ [r] } }, [])
  | .turn c =>
    match (nodeSemantics node).step p 0 c with
    | none => none
    | some (p', _) => some (p', (taken p).toList)

/-- The loop at its start, with empty maps. -/
def init (node : Node) : NodePool := ⟨{}, [Task.body node .processProxyRequest]⟩

/-- The event does not take a request of a registered peer to register another identity. -/
def Orderly (p : NodePool) : LoopEvent → Prop
  | .arrive _ => True
  | .turn _ => ∀ r ∈ taken p, Fits p.state r

instance (p : NodePool) : (e : LoopEvent) → Decidable (Orderly p e)
  | .arrive _ => inferInstanceAs (Decidable True)
  | .turn _ => inferInstanceAs (Decidable (∀ r ∈ taken p, Fits p.state r))

/-- All the requests are about the registry. -/
def LoopEvent.IsRegistry : LoopEvent → Prop
  | .arrive r => Registry.IsRegistry r
  | .turn _ => True

/-! ## Where the loop is -/

/-- The rest of a turn, then the loop again. -/
def again (rest : Async Unit) : Thread := do
  rest
  return some .processProxyRequest

def putWn (h : String) (info : ClientInfo) (s : Shared) : Shared :=
  { s with clientWnMap := Function.update s.clientWnMap h (some info) }

def putPeer (peer : PeerId) (h : String) (s : Shared) : Shared :=
  { s with clientPeerMap := Function.update s.clientPeerMap peer.toBase58 (some h) }

def removePeer (peer : PeerId) (s : Shared) : Shared :=
  { s with clientPeerMap := Function.update s.clientPeerMap peer.toBase58 none }

def removeWn (h : String) (s : Shared) : Shared :=
  { s with clientWnMap := Function.update s.clientWnMap h none }

/-- Record an accepted client and acknowledge. -/
def acceptClient (peer : PeerId) (request : Request) (newProxy : NewProxy) (hash : String) :
    Async Unit := do
  Prog.write (putPeer peer hash)
  Prog.write (putWn hash ⟨newProxy.whiteNoiseId, peer, 1, 3600⟩)
  Node.sendAck peer ⟨request.reqId, true, []⟩

/-- What the maps owe to the last request: after a removal nothing refers to its peer. -/
def Settled (s : Shared) (last : Option NodeProxyRequest) : Prop :=
  Consistent s ∧ ∀ r, last = some r → Unregisters r → Absent s r.remotePeerId

/-- The loop between two operations, after it took the request `last`. -/
inductive Stage (node : Node) (s : Shared) : Option NodeProxyRequest → Thread → Prop
  | waiting {last} (h : Settled s last) : Stage node s last (Task.body node .processProxyRequest)
  | returned {last} (h : Settled s last) : Stage node s last (.ret (some .processProxyRequest))
  | replying {last} (h : Settled s last) (peer : PeerId) (ack : Ack) :
      Stage node s last (again (Node.sendAck peer ack))
  | took {r} (hr : IsRegistry r) (h : Consistent s) (hf : Fits s r) :
      Stage node s (some r) (again (processProxyRequest node r))
  | found {r request} (hr : Registers r request) (h : Consistent s) (newProxy : NewProxy)
      (hash : String) (hw : s.clientWnMap hash = none)
      (hp : s.clientPeerMap r.remotePeerId.toBase58 = none) :
      Stage node s (some r) (again (acceptClient r.remotePeerId request newProxy hash))
  | putPeer {r request s₀} (hr : Registers r request) (h : Consistent s₀) (newProxy : NewProxy)
      (hash : String) (hw : s₀.clientWnMap hash = none)
      (hp : s₀.clientPeerMap r.remotePeerId.toBase58 = none)
      (hs : s.clientPeerMap = (Registry.putPeer r.remotePeerId hash s₀).clientPeerMap)
      (hs' : s.clientWnMap = s₀.clientWnMap) :
      Stage node s (some r) (again do
        Prog.write (putWn hash ⟨newProxy.whiteNoiseId, r.remotePeerId, 1, 3600⟩)
        Node.sendAck r.remotePeerId ⟨request.reqId, true, []⟩)
  | removedPeer {r s₀} (hr : Unregisters r) (h : Consistent s₀) (hash : String)
      (hp : s₀.clientPeerMap r.remotePeerId.toBase58 = some hash)
      (hs : s.clientPeerMap = (removePeer r.remotePeerId s₀).clientPeerMap)
      (hs' : s.clientWnMap = s₀.clientWnMap) :
      Stage node s (some r) (again (Prog.write (removeWn hash)))

variable {node : Node} {s : Shared} {r : NodeProxyRequest} {request : Request}

omit [Codec] [Crypto] in
theorem Registers.not_unregisters (hr : Registers r request) : ¬ Unregisters r := by
  obtain ⟨hop, hreq, htype⟩ := hr
  rintro (h | ⟨-, request', hreq', htype'⟩)
  · rw [hop] at h
    cases h
  · rw [hreq] at hreq'
    cases hreq'
    rw [htype] at htype'
    exact absurd htype' (by decide)

omit [Codec] in
theorem Registers.settled (hr : Registers r request) (h : Consistent s) : Settled s (some r) := by
  refine ⟨h, ?_⟩
  intro r' hr'
  cases hr'
  exact fun hu => absurd hu hr.not_unregisters

omit [Codec] in
theorem Consistent.settled (h : Consistent s) (hp : s.clientPeerMap r.remotePeerId.toBase58 = none) :
    Settled s (some r) := by
  refine ⟨h, ?_⟩
  intro r' hr' _
  cases hr'
  exact ⟨hp, h.absent hp⟩

theorem processProxyRequest_unregisters (hr : Unregisters r) :
    processProxyRequest node r = unregister r.remotePeerId := by
  rcases hr with h | ⟨h, request, hreq, htype⟩
  · simp only [processProxyRequest, h]
  · simp only [processProxyRequest, h, hreq, htype, Prog.unwrap_some, Prog.ret_bind]
    rfl

theorem Registers.registering_eq (hr : Registers r request) :
    registering r = newProxyHash request := by
  obtain ⟨hop, hreq, htype⟩ := hr
  rw [registering, if_pos hop, hreq]
  exact if_pos htype

theorem processProxyRequest_registers (hr : Registers r request) :
    processProxyRequest node r = handleNewProxy request r.remotePeerId := by
  obtain ⟨hop, hreq, htype⟩ := hr
  simp only [processProxyRequest, hop, hreq, htype, Prog.unwrap_some, Prog.ret_bind]
  rfl

/-- A new proxy request that cannot be read kills the loop; else it looks for the identity. -/
theorem handleNewProxy_cases (request : Request) (peer : PeerId) :
    handleNewProxy request peer = .fail ∨
    ∃ newProxy hash, newProxyHash request = some hash ∧
      handleNewProxy request peer = .atomic id fun s =>
        if (s.clientWnMap hash).isSome then
          Node.sendAck peer ⟨request.reqId, false, utf8 "Proxy already"⟩
        else acceptClient peer request newProxy hash := by
  cases hd : (Codec.decode request.data : Option NewProxy) with
  | none =>
    left
    simp only [handleNewProxy, hd, Prog.unwrap_none, Prog.fail_bind]
  | some newProxy =>
    cases hh : fromWhitenoiseToHash newProxy.whiteNoiseId with
    | none =>
      left
      simp only [handleNewProxy, hd, hh, Prog.unwrap_some, Prog.ret_bind, Prog.unwrap_none,
        Prog.fail_bind]
    | some hash =>
      refine Or.inr ⟨newProxy, hash, ?_, ?_⟩
      · simp only [newProxyHash, hd, hh, Option.bind_eq_bind, Option.bind_some]
      · simp only [handleNewProxy, hd, hh, Prog.unwrap_some, Prog.ret_bind, Prog.read_bind]
        rfl

variable {last : Option NodeProxyRequest} {t : Thread} {c : Choice}

/-- A loop that waits takes the first request of its queue. -/
theorem advance_waiting {a : Reply Shared Task Output Thread}
    (ha : (nodeSemantics node).advance c s (Task.body node .processProxyRequest) = some a) :
    ∃ r qs, s.proxyRequests = r :: qs ∧
      a = ⟨again (processProxyRequest node r), { s with proxyRequests := qs }, [], []⟩ := by
  cases hq : s.proxyRequests with
  | nil => simp [Task.body, nodeSemantics, Semantics.advance, Shared.reply, Shared.dequeue, hq,
      Prog.call] at ha
  | cons r qs =>
    simp only [Task.body, nodeSemantics, Semantics.advance, Shared.reply, Shared.dequeue, hq,
      Prog.call_bind, Option.some.injEq] at ha
    exact ⟨r, qs, rfl, ha.symm⟩

/-- One turn of the loop: it waits and takes a request, or it keeps its stage. -/
theorem Stage.advance {a : Reply Shared Task Output Thread} (h : Stage node s last t)
    (ha : (nodeSemantics node).advance c s t = some a) :
    a.spawned = [] ∧
      (isWaiting t = true ∧ (∃ r qs, s.proxyRequests = r :: qs ∧
          a.state = { s with proxyRequests := qs } ∧
          a.answer = again (processProxyRequest node r)) ∨
        isWaiting t = false ∧ a.state.proxyRequests = s.proxyRequests ∧
          Stage node a.state last a.answer) := by
  cases h with
  | waiting h =>
    obtain ⟨r, qs, hq, rfl⟩ := advance_waiting ha
    exact ⟨rfl, Or.inl ⟨rfl, r, qs, hq, rfl, rfl⟩⟩
  | returned h =>
    cases ha
    exact ⟨rfl, Or.inr ⟨rfl, rfl, .waiting h⟩⟩
  | replying h peer ack =>
    cases ha
    exact ⟨rfl, Or.inr ⟨rfl, rfl, .returned h⟩⟩
  | @took r hr h hf =>
    rcases hr with hr | ⟨request, hr⟩
    · rw [processProxyRequest_unregisters hr] at ha
      cases ha
      refine ⟨rfl, Or.inr ⟨by rw [processProxyRequest_unregisters hr]; rfl, rfl, ?_⟩⟩
      cases hp : s.clientPeerMap r.remotePeerId.toBase58 with
      | none =>
        simp only [Prog.bind_eq, Prog.ret_bind, hp]
        exact .returned (Consistent.settled (Inverse.remove_absent h hp) (Function.update_self ..))
      | some hash =>
        simp only [Prog.bind_eq, Prog.ret_bind, hp]
        exact .removedPeer hr h hash hp rfl rfl
    · rw [processProxyRequest_registers hr] at ha
      rcases handleNewProxy_cases request r.remotePeerId with hfail | ⟨newProxy, hash, hh, heq⟩
      · rw [hfail] at ha
        cases ha
      · have hwait : isWaiting (again (processProxyRequest node r)) = false := by
          rw [processProxyRequest_registers hr, heq]
          rfl
        rw [heq] at ha
        cases ha
        refine ⟨rfl, Or.inr ⟨hwait, rfl, ?_⟩⟩
        cases hw : s.clientWnMap hash with
        | some info =>
          simp only [Prog.bind_eq, hw, Option.isSome_some, if_true]
          exact .replying (hr.settled h) _ _
        | none =>
          simp only [Prog.bind_eq, hw, Option.isSome_none, Bool.false_eq_true, if_false]
          exact .found hr h newProxy hash hw (hf hash (hr.registering_eq.trans hh) hw)
  | found hr h newProxy hash hw hp =>
    cases ha
    exact ⟨rfl, Or.inr ⟨rfl, rfl, .putPeer hr h newProxy hash hw hp rfl rfl⟩⟩
  | @putPeer r request s₀ hr h newProxy hash hw hp hs hs' =>
    cases ha
    refine ⟨rfl, Or.inr ⟨rfl, rfl, .replying (hr.settled ?_) _ _⟩⟩
    have hi := (Inverse.insert_iff h hw ⟨newProxy.whiteNoiseId, r.remotePeerId, 1, 3600⟩).mpr hp
    simp only [Consistent, putWn, hs, hs']
    exact hi
  | @removedPeer r s₀ hr h hash hp hs hs' =>
    cases ha
    refine ⟨rfl, Or.inr ⟨rfl, rfl, .returned (Consistent.settled ?_ ?_)⟩⟩
    · simp only [Consistent, removeWn, hs, hs']
      exact Inverse.remove h hp
    · simp only [removeWn, hs, removePeer, Function.update_self]

/-- The loop at some stage, with registry requests in its queue. -/
structure Running (node : Node) (p : NodePool) (last : Option NodeProxyRequest) : Prop where
  thread : ∃ t, p.threads = [t] ∧ Stage node p.state last t
  queue : ∀ r ∈ p.state.proxyRequests, IsRegistry r

theorem Stage.arrive {s' : Shared} (h : Stage node s last t)
    (hp : s'.clientPeerMap = s.clientPeerMap) (hw : s'.clientWnMap = s.clientWnMap) :
    Stage node s' last t := by
  have hset : ∀ last, Settled s last → Settled s' last := by
    intro last h
    simpa only [Settled, Consistent, Absent, hp, hw] using h
  have hcon : Consistent s → Consistent s' := by
    intro h
    simpa only [Consistent, hp, hw] using h
  cases h with
  | waiting h => exact .waiting (hset _ h)
  | returned h => exact .returned (hset _ h)
  | replying h peer ack => exact .replying (hset _ h) peer ack
  | took hr h hf =>
    refine .took hr (hcon h) ?_
    intro hash hh hn
    rw [hp]
    exact hf hash hh (by rwa [hw] at hn)
  | found hr h newProxy hash hwn hpn =>
    exact .found hr (hcon h) newProxy hash (by rwa [hw]) (by rwa [hp])
  | putPeer hr h newProxy hash hwn hpn hs hs' =>
    exact .putPeer hr h newProxy hash hwn hpn (hp.trans hs) (hw.trans hs')
  | removedPeer hr h hash hpn hs hs' =>
    exact .removedPeer hr h hash hpn (hp.trans hs) (hw.trans hs')

/-- A loop that waits or has failed has settled its last request. -/
theorem Stage.settled (h : Stage node s last t) (hq : isWaiting t = true ∨ t.isEnded = true) :
    Settled s last := by
  cases h with
  | waiting h => exact h
  | returned h => exact h
  | replying h => exact h
  | @took r hr h hf =>
    rcases hr with hr | ⟨request, hr⟩
    · rw [processProxyRequest_unregisters hr] at hq
      rcases hq with hq | hq <;> cases hq
    · exact hr.settled h
  | found => rcases hq with hq | hq <;> cases hq
  | putPeer => rcases hq with hq | hq <;> cases hq
  | removedPeer => rcases hq with hq | hq <;> cases hq

/-- A turn of the loop, whose thread is the only one -/
theorem step_turn {p p' : NodePool} {os : List NodeProxyRequest} (ht : p.threads = [t])
    (hs : Registry.step node p (.turn c) = some (p', os)) :
    ∃ a, (nodeSemantics node).advance c p.state t = some a ∧ p'.state = a.state ∧
      p'.threads = a.answer :: a.spawned.map (Task.body node) ∧ os = (taken p).toList := by
  simp only [Registry.step] at hs
  split at hs
  · cases hs
  · next p₁ o hstep =>
    cases hs
    obtain ⟨t', a, ht', ha, hstate, hthreads, -⟩ := Semantics.step_eq_some _ hstep
    rw [ht] at ht' hthreads
    obtain rfl := Option.some.inj ht'
    exact ⟨a, ha, hstate, hthreads, rfl⟩

/-- One event keeps the loop running. -/
theorem Running.step {p p' : NodePool} {e : LoopEvent} {os : List NodeProxyRequest}
    (h : Running node p last) (hC : Orderly p e) (he : e.IsRegistry)
    (hs : Registry.step node p e = some (p', os)) :
    Running node p' (os.getLast?.or last) := by
  obtain ⟨⟨t, ht, hst⟩, hq⟩ := h
  cases e with
  | arrive r =>
    cases hs
    refine ⟨⟨t, ht, hst.arrive rfl rfl⟩, ?_⟩
    intro r' hr'
    rcases List.mem_append.mp hr' with h | h
    · exact hq r' h
    · obtain rfl := List.mem_singleton.mp h
      exact he
  | turn c =>
    obtain ⟨a, ha, hstate, hthreads, rfl⟩ := step_turn ht hs
    obtain ⟨hsp, ⟨hw, r, qs, hqs, has, haa⟩ | ⟨hw, hqs, hst'⟩⟩ := hst.advance ha
    · have htaken : taken p = some r := by simp [taken, ht, hw, hqs]
      rw [hsp, haa] at hthreads
      refine ⟨⟨_, hthreads, ?_⟩, ?_⟩
      · rw [htaken, hstate, has]
        have hr : IsRegistry r := hq r (by rw [hqs]; exact List.mem_cons_self)
        exact Stage.arrive (.took hr (hst.settled (Or.inl hw)).1 (hC r htaken)) rfl rfl
      · intro r' hr'
        rw [hstate, has] at hr'
        exact hq r' (by rw [hqs]; exact List.mem_cons_of_mem _ hr')
    · have htaken : taken p = none := by simp [taken, ht, hw]
      rw [hsp] at hthreads
      refine ⟨⟨_, hthreads, ?_⟩, ?_⟩
      · rw [htaken, hstate]
        exact hst'
      · rw [hstate, hqs]
        exact hq

/-- In every run in which no registered peer registers another identity, whenever the loop waits
or has failed the maps are inverse, and nothing refers to a peer whose removal came last. -/
theorem registry_consistent (node : Node) {es : List LoopEvent} {p : NodePool}
    {os : List NodeProxyRequest} (he : ∀ e ∈ es, e.IsRegistry)
    (hC : Meets Orderly (step node) (init node) es)
    (h : run (step node) (init node) es = some (p, os))
    (hq : ∀ t ∈ p.threads, isWaiting t = true ∨ t.isEnded = true) :
    Consistent p.state ∧ ∀ r, os.getLast? = some r → Unregisters r →
      Absent p.state r.remotePeerId := by
  have hrun : (∀ e ∈ es, e.IsRegistry) → Running node p os.getLast? := by
    refine run_induction_meets
      (P := fun es t os => (∀ e ∈ es, e.IsRegistry) → Running node t os.getLast?) ?_ ?_ hC h
    · intro _
      refine ⟨⟨_, rfl, .waiting ⟨Inverse.empty, by simp⟩⟩, ?_⟩
      intro r hr
      cases hr
    · intro es t os e t' o hP hCe hstep hes
      rw [List.getLast?_append]
      exact (hP fun e' he' => hes e' (List.mem_append_left _ he')).step hCe
        (hes e (List.mem_append_right _ List.mem_cons_self)) hstep
  obtain ⟨⟨t, ht, hst⟩, -⟩ := hrun he
  exact hst.settled (hq t (by rw [ht]; exact List.mem_cons_self))

end Loop

/-! ## A client and its identities -/

namespace Sample

def server : Node := ⟨(⟨.ed25519, List.replicate 32 7⟩ : Ideal.Keypair), none, none⟩

def peer : PeerId := ⟨"12D3KooWAHoEkEqnKzM5PXFygh2movVBCSX3k8tDsT2cneU68Gyt"⟩

/-- The identity of an ed25519 key. -/
def identity (n : UInt8) : String := "0" ++ Base58.encode (List.replicate 32 n)

def register (n : UInt8) : NodeProxyRequest :=
  ⟨peer, some ⟨"id", peer.toBase58, Reqtype.newProxy.toI32,
    Codec.encode ({ time := "60m", whiteNoiseId := identity n } : NewProxy)⟩, none⟩

def disconnect : NodeProxyRequest := ⟨peer, none, some .disconnect⟩

/-- A request arrives and the loop takes some turns. -/
def handled (r : NodeProxyRequest) (turns : ℕ) : List LoopEvent :=
  .arrive r :: List.replicate turns (.turn .go)

def hash (n : UInt8) : String := Base58.encode (Sha256.digest (List.replicate 32 n))

def registerOnce : List LoopEvent := handled (register 1) 6 ++ handled disconnect 4

def registerTwice : List LoopEvent := handled (register 1) 6 ++ handled (register 2) 6

end Sample

theorem consistent_registerOnce : ∃ p os,
    run (step Sample.server) (init Sample.server) Sample.registerOnce = some (p, os) ∧
      os.getLast? = some Sample.disconnect ∧ Consistent p.state ∧ Absent p.state Sample.peer := by
  obtain ⟨p, os, hr, hp⟩ := exists_run (step Sample.server) (init Sample.server)
    Sample.registerOnce
    (fun r => r.1.threads.all isWaiting && decide (r.2.getLast? = some Sample.disconnect))
    (by decide +kernel)
  simp only [Bool.and_eq_true, List.all_eq_true, decide_eq_true_eq] at hp
  have he : ∀ e ∈ Sample.registerOnce, e.IsRegistry := by
    intro e he
    simp only [Sample.registerOnce, Sample.handled, List.cons_append, List.mem_cons,
      List.mem_append, List.mem_replicate] at he
    rcases he with rfl | ⟨-, rfl⟩ | rfl | ⟨-, rfl⟩
    · exact Or.inr ⟨_, rfl, rfl, rfl⟩
    · trivial
    · exact Or.inl (Or.inl rfl)
    · trivial
  obtain ⟨hc, ha⟩ := registry_consistent Sample.server he (.of_meets (by decide +kernel)) hr
    fun t ht => Or.inl (hp.1 t ht)
  exact ⟨p, os, hr, hp.2, hc, ha _ hp.2 (Or.inl rfl)⟩

/-- A peer that registers a second identity leaves the first one in `client_wn_map` only. -/
theorem not_consistent_registerTwice : ∃ p os,
    run (step Sample.server) (init Sample.server) Sample.registerTwice = some (p, os) ∧
      (∀ t ∈ p.threads, isWaiting t = true ∨ t.isEnded = true) ∧ ¬ Consistent p.state := by
  obtain ⟨p, os, hr, hp⟩ := exists_run (step Sample.server) (init Sample.server)
    Sample.registerTwice
    (fun r => r.1.threads.all isWaiting &&
      decide ((r.1.state.clientWnMap (Sample.hash 1)).map (fun info => info.peerId.toBase58) =
          some Sample.peer.toBase58 ∧
        r.1.state.clientPeerMap Sample.peer.toBase58 ≠ some (Sample.hash 1)))
    (by decide +kernel)
  simp only [Bool.and_eq_true, List.all_eq_true, decide_eq_true_eq] at hp
  obtain ⟨hw, hin, hout⟩ := hp
  refine ⟨p, os, hr, fun t ht => Or.inl (hw t ht), ?_⟩
  intro hc
  obtain ⟨info, hi, hk⟩ := Option.map_eq_some_iff.mp hin
  exact hout ((hc _ _).mpr ⟨info, hi, hk⟩)

end WhiteNoise.Registry
