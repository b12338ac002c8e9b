import WhiteNoise.Registry.Consistency

/-! # Whose entries a peer changes

A peer may register again and leave entries behind. Its requests nevertheless
touch its own entries only: the identity stored for a peer is never that of
another one, also when it is stale.
-/

namespace WhiteNoise.Registry

open Wire Process

section Loop

variable [Codec] [Crypto]

/-- The entries of the other peers are what they were, in both maps. -/
structure Spares (peer : PeerId) (s s' : Shared) : Prop where
  wn : ∀ h info, info.peerId ≠ peer →
    (s'.clientWnMap h = some info ↔ s.clientWnMap h = some info)
  peer : ∀ a, a ≠ peer → s'.clientPeerMap a.toBase58 = s.clientPeerMap a.toBase58

/-- The identity stored for a peer is registered, and for that peer. -/
def OwnsHashes (s : Shared) : Prop :=
  Owned s.clientPeerMap s.clientWnMap fun info => info.peerId.toBase58

/-- The loop between two operations, after it took the request `last`. -/
inductive Serving (node : Node) (s : Shared) : Option NodeProxyRequest → Thread → Prop
  | waiting {last} (h : OwnsHashes s) : Serving node s last (Task.body node .processProxyRequest)
  | returned {last} (h : OwnsHashes s) : Serving node s last (.ret (some .processProxyRequest))
  | replying {last} (h : OwnsHashes s) (peer : PeerId) (ack : Ack) :
      Serving node s last (again (Node.sendAck peer ack))
  | took {r} (hr : IsRegistry r) (h : OwnsHashes s) :
      Serving node s (some r) (again (processProxyRequest node r))
  | found {r} (h : OwnsHashes s) (request : Request) (newProxy : NewProxy) (hash : String)
      (hw : s.clientWnMap hash = none) :
      Serving node s (some r) (again (acceptClient r.remotePeerId request newProxy hash))
  | putPeer {r s₀} (h : OwnsHashes s₀) (request : Request) (newProxy : NewProxy) (hash : String)
      (hw : s₀.clientWnMap hash = none)
      (hs : s.clientPeerMap = (Registry.putPeer r.remotePeerId hash s₀).clientPeerMap)
      (hs' : s.clientWnMap = s₀.clientWnMap) :
      Serving node s (some r) (again do
        Prog.write (putWn hash ⟨newProxy.whiteNoiseId, r.remotePeerId, 1, 3600⟩)
        Node.sendAck r.remotePeerId ⟨request.reqId, true, []⟩)
  | removedPeer {r} (h : OwnsHashes s) (hash : String)
      (hp : s.clientPeerMap r.remotePeerId.toBase58 = none)
      (hw : ∀ info, s.clientWnMap hash = some info →
        info.peerId.toBase58 = r.remotePeerId.toBase58) :
      Serving node s (some r) (again (Prog.write (removeWn hash)))

variable {node : Node} {s s' s'' : Shared} {r : NodeProxyRequest} {last : Option NodeProxyRequest}
  {t : Thread} {c : Choice} {peer : PeerId} {hash : String}

omit [Codec] in
theorem Spares.of_eq (hp : s'.clientPeerMap = s.clientPeerMap)
    (hw : s'.clientWnMap = s.clientWnMap) : Spares peer s s' := by
  constructor
  · intro h info _
    rw [hw]
  · intro a _
    rw [hp]

omit [Codec] in
theorem Spares.trans (h : Spares peer s s') (h' : Spares peer s' s'') : Spares peer s s'' := by
  constructor
  · rintro hash info hne
    exact (h'.wn hash info hne).trans (h.wn hash info hne)
  · rintro a ha
    exact (h'.peer a ha).trans (h.peer a ha)

omit [Codec] [Crypto] in
theorem PeerId.toBase58_ne {a b : PeerId} (h : a ≠ b) : a.toBase58 ≠ b.toBase58 := by
  rintro heq
  cases a
  cases b
  cases heq
  exact h rfl

omit [Codec] in
theorem spares_putPeer : Spares peer s (putPeer peer hash s) := by
  constructor
  · intro h info _
    exact Iff.rfl
  · intro a ha
    exact Function.update_of_ne (PeerId.toBase58_ne ha) ..

omit [Codec] in
theorem spares_removePeer : Spares peer s (removePeer peer s) := by
  constructor
  · intro h info _
    exact Iff.rfl
  · intro a ha
    exact Function.update_of_ne (PeerId.toBase58_ne ha) ..

omit [Codec] in
/-- A new identity was nobody's. -/
theorem spares_putWn {info : ClientInfo} (hw : s.clientWnMap hash = none)
    (hi : info.peerId = peer) : Spares peer s (putWn hash info s) := by
  constructor
  · rintro h info' hne
    by_cases hh : h = hash
    · subst hh
      simp only [putWn, Function.update_self, hw]
      constructor
      · rintro heq
        cases heq
        exact absurd hi hne
      · rintro heq
        cases heq
    · simp only [putWn, Function.update_of_ne hh]
  · intro a _
    rfl

omit [Codec] in
theorem spares_removeWn
    (hw : ∀ info, s.clientWnMap hash = some info → info.peerId.toBase58 = peer.toBase58) :
    Spares peer s (removeWn hash s) := by
  constructor
  · rintro h info hne
    by_cases hh : h = hash
    · subst hh
      simp only [removeWn, Function.update_self]
      constructor
      · rintro heq
        cases heq
      · rintro heq
        exact absurd (hw info heq) (PeerId.toBase58_ne hne)
    · simp only [removeWn, Function.update_of_ne hh]
  · intro a _
    rfl

/-- The peer of the request that is served. -/
def ServedFor (peer : PeerId) (last : Option NodeProxyRequest) : Prop :=
  ∀ r, last = some r → r.remotePeerId = peer

/-- One turn of the loop: it waits and takes a request, or it goes on with its request. Either way
it spares the entries of all peers but the one it serves. -/
theorem Serving.advance {a : Reply Shared Task Output Thread} (h : Serving node s last t)
    (hpeer : ServedFor peer last) (ha : (nodeSemantics node).advance c s t = some a) :
    a.spawned = [] ∧ Spares peer s a.state ∧
      (isWaiting t = true ∧ (∃ r qs, s.proxyRequests = r :: qs ∧
          a.state = { s with proxyRequests := qs } ∧ OwnsHashes s ∧
          a.answer = again (processProxyRequest node r)) ∨
        isWaiting t = false ∧ a.state.proxyRequests = s.proxyRequests ∧
          Serving node a.state last a.answer) := by
  cases h with
  | waiting h =>
    obtain ⟨r, qs, hq, rfl⟩ := advance_waiting ha
    exact ⟨rfl, Spares.of_eq rfl rfl, Or.inl ⟨rfl, r, qs, hq, rfl, h, rfl⟩⟩
  | returned h =>
    cases ha
    exact ⟨rfl, Spares.of_eq rfl rfl, Or.inr ⟨rfl, rfl, .waiting h⟩⟩
  | replying h peer ack =>
    cases ha
    exact ⟨rfl, Spares.of_eq rfl rfl, Or.inr ⟨rfl, rfl, .returned h⟩⟩
  | @took r hr h =>
    obtain rfl := hpeer r rfl
    rcases hr with hr | ⟨request, hr⟩
    · rw [processProxyRequest_unregisters hr] at ha
      cases ha
      have hwait : isWaiting (again (processProxyRequest node r)) = false := by
        rw [processProxyRequest_unregisters hr]
        rfl
      refine ⟨rfl, spares_removePeer, Or.inr ⟨hwait, rfl, ?_⟩⟩
      cases hp : s.clientPeerMap r.remotePeerId.toBase58 with
      | none =>
        simp only [Prog.bind_eq, Prog.ret_bind, hp]
        exact .returned (Owned.forget h _)
      | some hash =>
        simp only [Prog.bind_eq, Prog.ret_bind, hp]
        refine Serving.removedPeer (s := removePeer r.remotePeerId s) (Owned.forget h _) hash
          (Function.update_self ..) ?_
        rintro info hinfo
        obtain ⟨info', hinfo', hk⟩ := h _ _ hp
        obtain rfl := Option.some.inj (hinfo.symm.trans hinfo')
        exact hk
    · rw [processProxyRequest_registers hr] at ha
      rcases handleNewProxy_cases request r.remotePeerId with hfail | ⟨newProxy, hash, -, heq⟩
      · rw [hfail] at ha
        cases ha
      · have hwait : isWaiting (again (processProxyRequest node r)) = false := by
          rw [processProxyRequest_registers hr, heq]
          rfl
        rw [heq] at ha
        cases ha
        refine ⟨rfl, Spares.of_eq rfl rfl, Or.inr ⟨hwait, rfl, ?_⟩⟩
        cases hw : s.clientWnMap hash with
        | some info =>
          simp only [Prog.bind_eq, hw, Option.isSome_some, if_true]
          exact .replying h _ _
        | none =>
          simp only [Prog.bind_eq, hw, Option.isSome_none, Bool.false_eq_true, if_false]
          exact .found h request newProxy hash hw
  | @found r h request newProxy hash hw =>
    cases ha
    obtain rfl := hpeer r rfl
    exact ⟨rfl, spares_putPeer, Or.inr ⟨rfl, rfl, .putPeer h request newProxy hash hw rfl rfl⟩⟩
  | @putPeer r s₀ h request newProxy hash hw hs hs' =>
    cases ha
    obtain rfl := hpeer r rfl
    refine ⟨rfl, spares_putWn (by rw [hs', hw]) rfl, Or.inr ⟨rfl, rfl, .replying ?_ _ _⟩⟩
    have hi := Owned.insert h hw ⟨newProxy.whiteNoiseId, r.remotePeerId, 1, 3600⟩
    simp only [OwnsHashes, putWn, hs, hs']
    exact hi
  | @removedPeer r h hash hp hw =>
    cases ha
    obtain rfl := hpeer r rfl
    exact ⟨rfl, spares_removeWn hw, Or.inr ⟨rfl, rfl, .returned (Owned.remove h hp hw)⟩⟩

/-- Only the maps matter to the stage. -/
theorem Serving.arrive (h : Serving node s last t) (hp : s'.clientPeerMap = s.clientPeerMap)
    (hw : s'.clientWnMap = s.clientWnMap) : Serving node s' last t := by
  have howns : OwnsHashes s → OwnsHashes s' := by
    rintro h
    simpa only [OwnsHashes, hp, hw] using h
  cases h with
  | waiting h => exact .waiting (howns h)
  | returned h => exact .returned (howns h)
  | replying h peer ack => exact .replying (howns h) peer ack
  | took hr h => exact .took hr (howns h)
  | found h request newProxy hash hwn => exact .found (howns h) request newProxy hash (by rwa [hw])
  | putPeer h request newProxy hash hwn hs hs' =>
    exact .putPeer h request newProxy hash hwn (hp.trans hs) (hw.trans hs')
  | removedPeer h hash hpn hwn =>
    refine .removedPeer (howns h) hash (by rwa [hp]) ?_
    rw [hw]
    exact hwn

/-- The loop at some stage, with registry requests in its queue. -/
structure Loops (node : Node) (p : NodePool) (last : Option NodeProxyRequest) : Prop where
  thread : ∃ t, p.threads = [t] ∧ Serving node p.state last t
  queue : ∀ r ∈ p.state.proxyRequests, IsRegistry r

variable {p p' : NodePool} {e : LoopEvent} {es : List LoopEvent} {os os' : List NodeProxyRequest}

/-- One event spares the entries of all peers but the one that is served. -/
theorem Loops.step (h : Loops node p last) (he : e.IsRegistry) (hpeer : ServedFor peer last)
    (hs : Registry.step node p e = some (p', os)) :
    Spares peer p.state p'.state ∧ Loops node p' (os.getLast?.or last) := by
  obtain ⟨⟨t, ht, hst⟩, hq⟩ := h
  cases e with
  | arrive r =>
    cases hs
    refine ⟨Spares.of_eq rfl rfl, ⟨t, ht, hst.arrive rfl rfl⟩, ?_⟩
    rintro r' hr'
    rcases List.mem_append.mp hr' with hold | hnew
    · exact hq r' hold
    · obtain rfl := List.mem_singleton.mp hnew
      exact he
  | turn c =>
    obtain ⟨a, ha, hstate, hthreads, rfl⟩ := step_turn ht hs
    obtain ⟨hsp, hspares, hnext⟩ := hst.advance hpeer ha
    rw [hstate]
    rw [hsp] at hthreads
    refine ⟨hspares, ?_⟩
    rcases hnext with ⟨hw, r, qs, hqs, has, howns, haa⟩ | ⟨hw, hqs, hst'⟩
    · have htaken : taken p = some r := by simp [taken, ht, hw, hqs]
      rw [haa] at hthreads
      rw [htaken]
      refine ⟨⟨_, hthreads, ?_⟩, ?_⟩
      · rw [hstate, has]
        have hr : IsRegistry r := hq r (by rw [hqs]; exact List.mem_cons_self)
        exact Serving.arrive (.took hr howns) rfl rfl
      · rintro r' hr'
        rw [hstate, has] at hr'
        exact hq r' (by rw [hqs]; exact List.mem_cons_of_mem _ hr')
    · have htaken : taken p = none := by simp [taken, ht, hw]
      rw [htaken]
      refine ⟨⟨_, hthreads, ?_⟩, ?_⟩
      · rw [hstate]
        exact hst'
      · rw [hstate, hqs]
        exact hq

omit [Codec] [Crypto] in
theorem ServedFor.or (hlast : ServedFor peer last) (hos : ∀ r ∈ os, r.remotePeerId = peer) :
    ServedFor peer (os.getLast?.or last) := by
  rintro r hr
  cases h : os.getLast? with
  | none =>
    rw [h, Option.none_or] at hr
    exact hlast r hr
  | some r' =>
    rw [h, Option.some_or] at hr
    exact hos r (List.mem_of_getLast? (h.trans hr))

/-- A loop that waits serves nobody. -/
theorem Serving.of_waiting (h : Serving node s last t) (hw : isWaiting t) :
    Serving node s none t := by
  cases h with
  | waiting h => exact .waiting h
  | @took r hr h =>
    rcases hr with hr | ⟨request, hr⟩
    · rw [processProxyRequest_unregisters hr] at hw
      cases hw
    · rw [processProxyRequest_registers hr] at hw
      rcases handleNewProxy_cases request r.remotePeerId with hfail | ⟨newProxy, hash, -, heq⟩
      · rw [hfail] at hw
        cases hw
      · rw [heq] at hw
        cases hw
  | returned | replying | found | putPeer | removedPeer => cases hw

/-- In every run, the loop is at some stage of the request it took last. -/
theorem Loops.of_run (he : ∀ e ∈ es, e.IsRegistry)
    (h : run (Registry.step node) (init node) es = some (p, os)) : Loops node p os.getLast? := by
  revert he
  refine run_induction
    (P := fun es t os => (∀ e ∈ es, e.IsRegistry) → Loops node t os.getLast?) ?_ ?_ h
  · intro _
    refine ⟨⟨_, rfl, .waiting Owned.empty⟩, ?_⟩
    rintro r hr
    cases hr
  · rintro es t os e t' o hP hstep hes
    have hloops := hP fun e' he' => hes e' (List.mem_append_left _ he')
    have hlast : ∃ peer, ServedFor peer os.getLast? := by
      cases hlast : os.getLast? with
      | none => exact ⟨⟨""⟩, by rintro r hr; cases hr⟩
      | some r => exact ⟨r.remotePeerId, by rintro r' hr'; cases hr'; rfl⟩
    obtain ⟨peer, hpeer⟩ := hlast
    rw [List.getLast?_append]
    exact (hloops.step (hes e (List.mem_append_right _ List.mem_cons_self)) hpeer hstep).2

/-- While the requests of one peer are served, the entries of all others stay. -/
theorem Loops.spares (hloops : Loops node p last) (hlast : ServedFor peer last)
    (he : ∀ e ∈ es, e.IsRegistry) (hos : ∀ r ∈ os, r.remotePeerId = peer)
    (h : run (Registry.step node) p es = some (p', os)) : Spares peer p.state p'.state := by
  have hrun : (∀ e ∈ es, e.IsRegistry) → (∀ r ∈ os, r.remotePeerId = peer) →
      Spares peer p.state p'.state ∧ Loops node p' (os.getLast?.or last) := by
    refine run_induction
      (P := fun es t os => (∀ e ∈ es, e.IsRegistry) → (∀ r ∈ os, r.remotePeerId = peer) →
        Spares peer p.state t.state ∧ Loops node t (os.getLast?.or last)) ?_ ?_ h
    · intro _ _
      exact ⟨Spares.of_eq rfl rfl, hloops⟩
    · rintro es t os e t' o hP hstep hes hserved
      have hos : ∀ r ∈ os, r.remotePeerId = peer :=
        fun r hr => hserved r (List.mem_append_left _ hr)
      obtain ⟨hspares, hloops⟩ := hP (fun e' he' => hes e' (List.mem_append_left _ he')) hos
      obtain ⟨hspares', hloops'⟩ :=
        hloops.step (hes e (List.mem_append_right _ List.mem_cons_self)) (hlast.or hos) hstep
      rw [List.getLast?_append, Option.or_assoc]
      exact ⟨hspares.trans hspares', hloops'⟩
  exact (hrun he hos).1

/-- In every run of the loop, whatever the peers registered before: while it takes the requests of
one peer only, having finished the last one before or being at one of that peer, the entries of all
other peers stay in both maps. -/
theorem registration_ownership (node : Node) (peer : PeerId) {before during : List LoopEvent}
    (hbefore : ∀ e ∈ before, e.IsRegistry) (hduring : ∀ e ∈ during, e.IsRegistry)
    (h : run (step node) (init node) before = some (p, os))
    (h' : run (step node) p during = some (p', os'))
    (hstart : (∀ t ∈ p.threads, isWaiting t) ∨ ServedFor peer os.getLast?)
    (hpeer : ∀ r ∈ os', r.remotePeerId = peer) : Spares peer p.state p'.state := by
  have hloops := Loops.of_run hbefore h
  rcases hstart with hwait | hlast
  · obtain ⟨⟨t, ht, hst⟩, hq⟩ := hloops
    have hidle : Loops node p none :=
      ⟨⟨t, ht, hst.of_waiting (hwait t (by rw [ht]; exact List.mem_cons_self))⟩, hq⟩
    refine hidle.spares ?_ hduring hpeer h'
    rintro r hr
    cases hr
  · exact hloops.spares hlast hduring hpeer h'

end Loop

/-! ## A stale identity -/

namespace Sample

def other : PeerId := ⟨"12D3KooWBzVANe1WKxFh5q6xHCjnWqYMGmCQEiD86ghB3pVMSN35"⟩

/-- The first peer registers two identities. -/
def registerBoth : List LoopEvent := handled (register 1) 6 ++ handled (register 2) 6

/-- The other one tries to take the stale one, then unregisters. -/
def registerStale : List LoopEvent :=
  handled { register 1 with remotePeerId := other } 4 ++
    handled ⟨other, none, some .disconnect⟩ 3

end Sample

theorem registration_ownership_stale : ∃ p os p' os',
    run (step Sample.server) (init Sample.server) Sample.registerBoth = some (p, os) ∧
      run (step Sample.server) p Sample.registerStale = some (p', os') ∧
      p.state.clientPeerMap Sample.peer.toBase58 ≠ some (Sample.hash 1) ∧
      Spares Sample.other p.state p'.state := by
  obtain ⟨p, os, hr, hp⟩ := exists_run (step Sample.server) (init Sample.server)
    Sample.registerBoth
    (fun r => r.1.threads.all isWaiting &&
      (decide (r.1.state.clientPeerMap Sample.peer.toBase58 ≠ some (Sample.hash 1)) &&
      (run (step Sample.server) r.1 Sample.registerStale).any fun r' =>
        r'.2.all fun q => decide (q.remotePeerId = Sample.other)))
    (by decide +kernel)
  simp only [Bool.and_eq_true, List.all_eq_true, decide_eq_true_eq] at hp
  obtain ⟨hw, hstale, hrest⟩ := hp
  obtain ⟨p', os', hr', hos'⟩ := exists_run (step Sample.server) p Sample.registerStale _ hrest
  simp only [List.all_eq_true, decide_eq_true_eq] at hos'
  have hregister : ∀ n peer, IsRegistry { Sample.register n with remotePeerId := peer } :=
    fun n peer => Or.inr ⟨_, rfl, rfl, rfl⟩
  have hbefore : ∀ e ∈ Sample.registerBoth, e.IsRegistry := by
    rintro e he
    simp only [Sample.registerBoth, Sample.handled, List.cons_append, List.mem_cons,
      List.mem_append, List.mem_replicate] at he
    rcases he with rfl | ⟨-, rfl⟩ | rfl | ⟨-, rfl⟩
    · exact hregister 1 Sample.peer
    · trivial
    · exact hregister 2 Sample.peer
    · trivial
  have hduring : ∀ e ∈ Sample.registerStale, e.IsRegistry := by
    rintro e he
    simp only [Sample.registerStale, Sample.handled, List.cons_append, List.mem_cons,
      List.mem_append, List.mem_replicate] at he
    rcases he with rfl | ⟨-, rfl⟩ | rfl | ⟨-, rfl⟩
    · exact hregister 1 Sample.other
    · trivial
    · exact Or.inl (Or.inl rfl)
    · trivial
  exact ⟨p, os, p', os', hr, hr', hstale,
    registration_ownership Sample.server Sample.other hbefore hduring hr hr' (Or.inl hw) hos'⟩

end WhiteNoise.Registry
