import WhiteNoise.Network.Traffic
import WhiteNoise.Process.Flow
import WhiteNoise.Survival.RequestLoops
import WhiteNoise.Swarm.Refinement

/-! # The event loop of a node

The tasks hand their messages to the event loop, which sends them out one by
one. It ends at a missing message, at a publication that is refused and when a
loop that it passes messages to has failed. The first never happens; so it goes
on if gossip takes what it is given and the request loops survive.
-/

namespace WhiteNoise.Swarm

open Wire Process RequestLoops

section Generic

variable [Codec] [Crypto] {X : Type}

/-! ## Messages -/

def NodeRequest.carried : NodeRequest → Option WhiteNoise.NodeRequest
  | message r => some r
  | _ => none

/-- The message that a task hands to the event loop. -/
def Out.requested : Out X → Option WhiteNoise.NodeRequest
  | node (.request r) => some r
  | _ => none

/-- The message that the event loop sends out. -/
def Out.sent : Out X → Option WhiteNoise.NodeRequest
  | loop (.sendRequest r) => some r
  | _ => none

theorem full_of_complete {r : WhiteNoise.NodeRequest} (h : r.Complete) : Full r := by
  cases r with
  | proxyRequest r =>
    obtain ⟨-, q, hq, -⟩ := h
    exact Option.isSome_iff_exists.mpr ⟨q, hq⟩
  | cmdRequest r =>
    obtain ⟨c, hc, -⟩ := h
    exact Option.isSome_iff_exists.mpr ⟨c, hc⟩
  | ackRequest r => exact h

omit [Codec] [Crypto] in
theorem sent_map_node (os : List Output) :
    (os.map (Out.node : Output → Out X)).filterMap Out.sent = [] := by
  rw [List.filterMap_map]
  exact List.filterMap_none _

omit [Codec] [Crypto] in
/-- A turn of the loop sends out the message of its request. -/
theorem serve_sent {mode : RunMode} {kbuckets : List (List MainNets.KadEntry)} {published : Bool}
    {relay : Relay} {r : NodeRequest} {t : Served}
    (h : serve mode kbuckets published relay r = some t) :
    (t.outputs.map (Out.loop : LoopOutput → Out X)).filterMap Out.sent = r.carried.toList := by
  cases r with
  | message r =>
    simp only [serve] at h
    split at h <;> cases h
    rfl
  | newStreamRequest =>
    cases h
    rfl
  | addPeerAddressesRequest peer addrs =>
    cases h
    rw [List.filterMap_map, List.filterMap_map]
    exact List.filterMap_none _
  | getMainNetsRequest =>
    cases mode <;> cases h <;> rfl
  | publishData =>
    cases mode with
    | server =>
      simp only [serve] at h
      split at h <;> cases h
      rfl
    | client =>
      cases h
      rfl

/-- An operation hands over what the thread is about to send. -/
theorem step_requested {node : Node} {p p' : NodePool} {i : ℕ} {c : Choice} {t : Thread}
    {os : List Output} (ht : p.threads[i]? = some t)
    (h : (nodeSemantics node).step p i c = some (p', os)) :
    (os.map (Out.node : Output → Out X)).filterMap Out.requested = (sends t).toList := by
  obtain ⟨u, r, hu, hr, -, -, rfl⟩ := Semantics.step_eq_some _ h
  obtain rfl : t = u := Option.some.inj (ht.symm.trans hu)
  cases t with
  | ret a =>
    cases a with
    | none => cases hr
    | some task =>
      cases hr
      rfl
  | fail => cases hr
  | atomic f k =>
    cases hr
    rfl
  | act a k =>
    obtain ⟨x, hx, rfl⟩ := Semantics.advance_act hr
    dsimp only
    rw [Shared.reply_outputs hx]
    cases a with
    | newRelayStream p => cases x.answer <;> rfl
    | _ => rfl

omit [Codec] in
theorem sends_of_waits {t : Thread} (h : waits t) : sends t = none := by
  cases t with
  | act a k =>
    cases a with
    | send r => cases h
    | _ => rfl
  | _ => rfl

variable {node : Node} {m m' : Machine X} {e : Event X} {o : List (Out X)}

namespace Machine

/-- The messages that the event loop has not sent out yet. -/
def messages (m : Machine X) : List WhiteNoise.NodeRequest :=
  m.nodeRequests.filterMap NodeRequest.carried

omit [Codec] [Crypto] in
theorem proxy_started {mode : RunMode} : .processProxyRequest ∈ startTasks mode := by
  cases mode <;> simp [startTasks]

omit [Codec] [Crypto] in
theorem cmd_started {mode : RunMode} : .processCmdRequest ∈ startTasks mode := by
  cases mode <;> simp [startTasks]

/-- What a step does to the event loop: its queue of messages is first in, first out, or it ends. -/
inductive LoopStep (m m' : Machine X) (e : Event X) (o : List (Out X)) : Prop
  | goes (hmode : m'.mode = m.mode) (halive : m'.alive = m.alive)
      (hflow : Flow (o.filterMap Out.sent) (o.filterMap Out.requested) m.messages m'.messages)
  | refused {kbuckets : List (List MainNets.KadEntry)} {published : Bool} {r : NodeRequest}
      {rs : List NodeRequest} (he : e = .serve kbuckets published) (hr : m.nodeRequests = r :: rs)
      (hserve : Swarm.serve m.mode kbuckets published m.behaviour.relayBehaviour r = none)
  | failed {loop : Task} (hloop : loop ∈ startTasks m.mode) (hfailed : m.failed loop)

omit [Codec] in
/-- Requests of another kind. -/
theorem LoopStep.still {r : List NodeRequest} (hr : r.filterMap NodeRequest.carried = [])
    (hmode : m'.mode = m.mode) (halive : m'.alive = m.alive)
    (hrequests : m'.nodeRequests = m.nodeRequests ++ r) (hsent : o.filterMap Out.sent = [])
    (hrequested : o.filterMap Out.requested = []) : m.LoopStep m' e o := by
  refine .goes hmode halive ?_
  rw [messages, messages, hrequests, List.filterMap_append, hr, List.append_nil, hsent, hrequested]
  exact .refl _

omit [Codec] in
/-- No request at all. -/
theorem LoopStep.idle (hmode : m'.mode = m.mode) (halive : m'.alive = m.alive)
    (hrequests : m'.nodeRequests = m.nodeRequests) (hsent : o.filterMap Out.sent = [])
    (hrequested : o.filterMap Out.requested = []) : m.LoopStep m' e o :=
  .still (r := []) rfl hmode halive (hrequests.trans (List.append_nil _).symm) hsent hrequested

theorem thread_loop {i : ℕ} {c : Choice} (h : m.thread node i c = some (m', o)) :
    m.LoopStep m' e o := by
  unfold thread at h
  split at h
  · cases h
  · next t ht =>
    split at h
    · cases h
    · split at h
      · cases h
      · next pool os hs =>
        cases h
        refine .goes rfl rfl ?_
        rw [sent_map_node, step_requested ht hs, messages, messages, List.filterMap_append]
        cases sends t with
        | none => exact (List.append_nil _).trans (List.append_nil _).symm
        | some r => exact .put [r] _

theorem answered_loop {j : ℕ} (h : m.answered node j = some (m', o)) : m.LoopStep m' e o := by
  obtain ⟨q, a, t, pool, os, -, -, ht, hwaits, hs, rfl, rfl⟩ := answered_cases h
  have hrequested : (os.map (Out.node : Output → Out X)).filterMap Out.requested = [] := by
    rw [step_requested ht hs, sends_of_waits hwaits]
    rfl
  exact .idle rfl rfl rfl (sent_map_node os) hrequested

omit [Codec] in
theorem serve_loop {kbuckets : List (List MainNets.KadEntry)} {published : Bool}
    (h : m.serve kbuckets published = some (m', o)) :
    m.LoopStep m' (.serve kbuckets published) o := by
  unfold serve at h
  split at h
  · cases h
  · next r nodeRequests hr =>
    split at h
    · split at h
      · next hnone => exact .refused rfl hr hnone
      · next t ht =>
        cases h
        have hrequested :
            (t.outputs.map (Out.loop : LoopOutput → Out X)).filterMap Out.requested = [] := by
          rw [List.filterMap_map]
          exact List.filterMap_none _
        refine .goes rfl rfl ?_
        rw [serve_sent ht, hrequested, messages, messages, hr]
        cases hc : r.carried with
        | none =>
          rw [List.filterMap_cons_none hc]
          exact .refl _
        | some q =>
          rw [List.filterMap_cons_some hc]
          exact .take [q] _
    · cases h

omit [Codec] in
theorem report_loop {loop : Option Task} {state : Shared}
    (hloop : ∀ task, loop = some task → task ∈ startTasks m.mode)
    (h : m.report loop state = some (m', o)) : m.LoopStep m' e o := by
  unfold report at h
  split at h
  · split at h
    · next hfailed =>
      obtain ⟨task, htask, hfailed⟩ := (Option.any_eq_true _ _).mp hfailed
      exact .failed (hloop task htask) hfailed
    · cases h
      exact .idle rfl rfl rfl rfl rfl
  · cases h

omit [Codec] in
theorem poll_loop {target : Option ℕ} (h : m.poll target = some (m', o)) :
    m.LoopStep m' e o := by
  unfold poll at h
  split at h
  · split at h
    · cases h
    · next x relay hp =>
      dsimp only at h
      split at h
      · next hfailed =>
        obtain ⟨task, htask, hfailed⟩ := (Option.any_eq_true _ _).mp hfailed
        obtain rfl : task = .processProxyRequest := by
          cases x with
          | disconnect p => exact (Option.some.inj htask).symm
          | _ => cases htask
        exact .failed proxy_started hfailed
      · cases h
        exact .idle rfl rfl rfl rfl rfl
    · split at h
      · cases h
        exact .idle rfl rfl rfl rfl rfl
      · split at h
        · cases h
        · split at h
          · cases h
            exact .idle rfl rfl rfl rfl rfl
          · cases h
  · cases h

theorem step_loop (h : m.step node e = some (m', o)) : m.LoopStep m' e o := by
  cases e with
  | thread i c => exact thread_loop h
  | answered j => exact answered_loop h
  | serve kbuckets published => exact serve_loop h
  | poll target => exact poll_loop h
  | proxy e =>
    refine report_loop (fun task htask => ?_) h
    cases e with
    | request peer request =>
      obtain rfl := Option.some.inj htask
      exact proxy_started
    | _ => cases htask
  | cmd e =>
    refine report_loop (fun task htask => ?_) h
    cases e with
    | request peer request =>
      obtain rfl := Option.some.inj htask
      exact cmd_started
    | _ => cases htask
  | ack e => exact report_loop (fun _ htask => by cases htask) h
  | gossipsub e =>
    refine report_loop (fun task htask => ?_) h
    cases e with
    | message data =>
      simp only [GossipsubEvent.receiver] at htask
      split at htask
      · next hmode =>
        obtain rfl := Option.some.inj htask
        rw [hmode]
        exact List.mem_cons_self
      · cases htask
    | _ => cases htask
  | newRelayStream i =>
    simp only [step] at h
    split at h
    · split at h
      · cases h
      · cases h
        exact .idle rfl rfl rfl rfl rfl
    · cases h
  | turn j =>
    simp only [step] at h
    split at h
    · cases h
    · split at h
      · cases h
      · cases h
        exact .idle rfl rfl rfl rfl rfl
  | send j =>
    simp only [step] at h
    split at h
    · cases h
    · cases h
      by_cases halive : m.alive
      · exact .still (r := [_]) rfl rfl rfl (if_pos halive) rfl rfl
      · exact .idle rfl rfl (if_neg halive) rfl rfl
  | resume j =>
    simp only [step, resume] at h
    split at h
    · split at h
      · split at h
        · split at h
          · cases h
            exact .idle rfl rfl rfl rfl rfl
          · cases h
            exact .idle rfl rfl rfl rfl rfl
        · cases h
      · cases h
    · cases h
  | ask i =>
    simp only [step, ask] at h
    split at h
    · cases h
    · split at h
      · cases h
        exact .still (r := [_]) rfl rfl rfl rfl rfl rfl
      · cases h
        exact .still (r := [_]) rfl rfl rfl rfl rfl rfl
      · cases h
  | addPeerAddresses peer addrs =>
    simp only [step] at h
    split at h
    · cases h
      exact .still (r := [_]) rfl rfl rfl rfl rfl rfl
    · cases h
  | accept =>
    simp only [step, accept] at h
    split at h
    · cases h
    · cases h
      exact .idle rfl rfl rfl rfl rfl
  | injectEvent c id =>
    simp only [step, injectEvent] at h
    split at h
    · cases h
    · split at h
      · cases h
      · split at h
        · cases h
          exact .idle rfl rfl rfl rfl rfl
        · cases h
  | disconnected p =>
    simp only [step] at h
    split at h
    · cases h
      exact .idle rfl rfl rfl rfl rfl
    · cases h
  | connection c ce =>
    simp only [step] at h
    split at h
    · cases h
    · split at h
      · cases h
      · cases h
        exact .idle rfl rfl rfl rfl rfl
  | call t | established p | frame id res =>
    cases h
    exact .idle rfl rfl rfl rfl rfl

/-! ## Survival -/

/-- The loops that the event loop passes messages to are alive. -/
def Running (node : Node) (m : Machine X) : Prop :=
  ∀ loop ∈ startTasks m.mode, (nodeSemantics node).Alive (sane node) (GoesOn loop)
    ((startTasks m.mode).idxOf loop) m.pool

/-- What the request loops do is sane, the application starts what it can, and gossipsub takes what it
is given. -/
structure Heeds (node : Node) (m : Machine X) (e : Event X) : Prop where
  sane : ∀ i c t, m.operation e = some (.thread i c) → i < (startTasks m.mode).length →
    m.pool.threads[i]? = some t → Sane node m.pool.state c t
  called : ∀ t, e = .call t → t.Called
  published : ∀ kbuckets, e ≠ .serve kbuckets false

/-- The event loop is there, with all that it needs. -/
structure Well (node : Node) (m : Machine X) : Prop where
  alive : m.alive
  sound : m.Sound
  proper : m.pool.Abides conduct ready Set.univ
  full : ∀ r ∈ m.messages, Full r
  running : m.Running node

theorem Running.failed (h : m.Running node) {loop : Task} (hloop : loop ∈ startTasks m.mode) :
    m.failed loop = false := by
  obtain ⟨t, ht, hsurvives⟩ := h loop hloop
  rw [Machine.failed, ht, Option.any_some]
  cases t with
  | fail => exact hsurvives.elim
  | _ => rfl

omit [Codec] [Crypto] in
theorem start_loop {task : Task} {mode : RunMode} (h : task ∈ startTasks mode) : Loop task := by
  cases mode <;> simp only [startTasks, List.mem_cons, List.not_mem_nil, or_false] at h
  · rcases h with rfl | rfl
    · exact .proxy
    · exact .cmd
  · rcases h with rfl | rfl | rfl
    · exact .publish
    · exact .proxy
    · exact .cmd

theorem start_ready {K : Set Known} {task : Task} {mode : RunMode} (h : task ∈ startTasks mode) :
    task.Ready K := by
  cases start_loop h <;> trivial

theorem start_running (X : Type) (node : Node) (mode : RunMode) :
    (start X node mode).Running node := by
  intro loop hloop
  refine ⟨Task.body node loop, ?_, (start_loop hloop).survives⟩
  have hmem : loop ∈ startTasks mode := hloop
  change ((startTasks mode).map (Task.body node))[(startTasks mode).idxOf loop]? = _
  rw [List.getElem?_map, List.getElem?_idxOf hmem, Option.map_some]

/-- A loop that is alive stays so at an event of the node. -/
theorem Running.step (h : m.Running node) (hm : m.Sound) (hheeds : m.Heeds node e)
    (hs : m.step node e = some (m', o)) (hmode : m'.mode = m.mode) : m'.Running node := by
  intro loop hloop
  rw [hmode] at hloop ⊢
  have halive := h loop hloop
  obtain ⟨⟨hpool, -⟩ | ⟨f, hf, hop⟩, -⟩ := step_answered hm hs
  · rw [hpool]
    exact halive
  · have hbody (task : Task) (htask : GoesOn loop (some task)) :
        (nodeSemantics node).Survives (sane node) (GoesOn loop) (Task.body node task) := by
      obtain rfl : task = loop := Option.some.inj htask
      exact (start_loop hloop).survives
    have hmeets : Meets (WhiteNoise.Heeds (sane node) ((startTasks m.mode).idxOf loop))
        (nodeStep node) m.pool [f] := by
      refine Meets.cons ?_ fun _ _ _ => Meets.nil
      rintro c t rfl ht
      exact hheeds.sane _ c t (hop.resolve_left id) (List.idxOf_lt_length_iff.mpr hloop) ht
    have hrun : run (nodeStep node) m.pool [f] = some (m'.pool, o.filterMap Out.output) :=
      run_cons_iff.mpr ⟨_, _, [], hf, rfl, (List.append_nil _).symm⟩
    exact alive_run hbody halive hmeets hrun

/-- The tasks keep to proper requests, and what they hand over is proper. -/
theorem step_proper (hm : m.Sound) (hp : m.pool.Abides conduct ready Set.univ)
    (hheeds : m.Heeds node e) (hs : m.step node e = some (m', o)) :
    m'.pool.Abides conduct ready Set.univ ∧ ∀ r ∈ o.filterMap Out.requested, r.Complete := by
  have hrequested : o.filterMap Out.requested =
      (o.filterMap Out.output).filterMap fun out => Out.requested (.node out : Out X) := by
    rw [List.filterMap_filterMap]
    congr 1
    funext x
    cases x <;> rfl
  obtain ⟨⟨hpool, ho⟩ | ⟨f, hf, hop⟩, -⟩ := step_answered hm hs
  · rw [hpool, hrequested, ho]
    exact ⟨hp, fun r hr => absurd hr List.not_mem_nil⟩
  · have hcall (t : Task) (ht : f = .call t) : t.Ready Set.univ := by
      subst ht
      exact called_ready_univ (hheeds.called t (operation_call (hop.resolve_left id)))
    obtain ⟨hp', hout⟩ := nodeStep_abides (Set.subset_univ _) hp
      (fun _ _ _ _ _ _ _ _ => Set.subset_univ _) (fun _ _ => Set.mem_univ _) hcall hf
    refine ⟨hp', fun r hr => ?_⟩
    rw [hrequested] at hr
    obtain ⟨out, hmem, hr⟩ := List.mem_filterMap.mp hr
    have hproper := hout out hmem
    cases out with
    | request q =>
      obtain rfl : q = r := Option.some.inj hr
      exact hproper.1
    | _ => cases hr

theorem start_well (X : Type) (node : Node) (mode : RunMode) : (start X node mode).Well node where
  alive := rfl
  sound := start_sound X node mode
  proper := start_abides fun _ ht => start_ready ht
  full _ hr := absurd hr List.not_mem_nil
  running := start_running X node mode

/-- Neither of the ways to end is open. -/
theorem Well.step (h : m.Well node) (hheeds : m.Heeds node e)
    (hs : m.step node e = some (m', o)) : m'.Well node ∧ m'.mode = m.mode ∧
      Flow (o.filterMap Out.sent) (o.filterMap Out.requested) m.messages m'.messages := by
  obtain ⟨hproper, hrequested⟩ := step_proper h.sound h.proper hheeds hs
  cases step_loop hs with
  | goes hmode halive hflow =>
    refine ⟨⟨halive.trans h.alive, (step_answered h.sound hs).2, hproper, fun r hr => ?_,
      h.running.step h.sound hheeds hs hmode⟩, hmode, hflow⟩
    have hmem : r ∈ m.messages ++ o.filterMap Out.requested := by
      rw [hflow]
      exact List.mem_append_right _ hr
    rcases List.mem_append.mp hmem with hmem | hmem
    · exact h.full r hmem
    · exact full_of_complete (hrequested r hmem)
  | refused he hr hserve =>
    subst he
    rcases serve_eq_none_iff.mp hserve with ⟨q, rfl, hq⟩ | ⟨-, rfl, -⟩
    · refine absurd (h.full q ?_) hq
      rw [messages, hr]
      exact List.mem_cons_self
    · exact absurd rfl (hheeds.published _)
  | failed hloop hfailed =>
    rw [h.running.failed hloop] at hfailed
    cases hfailed

end Machine

end Generic

/-- A peer disconnects, and the proxy loop takes the message. -/
def Sample.departs : List (Event ℕ) := [.disconnected peer, .poll none, .thread 1 .go]

end WhiteNoise.Swarm
