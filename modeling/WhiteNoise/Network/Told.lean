import WhiteNoise.Network.Ideal
import WhiteNoise.Network.Traffic

/-! # What a node has been told

What a task takes from the queues and the streams of its node has arrived there
before. So all that a node sends rests on what has come to it: it writes to the
streams it has been given, acknowledges what a peer has asked for, and passes on
the data that have come in, along their circuit.
-/

namespace WhiteNoise

open Wire Process

section Generic

variable [Codec] [Crypto]

/-- What has arrived tells the node what its peers want, and which streams there are. -/
inductive Told (es : List Event) (os : List Output) : Known → Prop
  | request {r : NodeProxyRequest} {q : Request} (hr : .proxyRequest r ∈ es)
      (hq : r.proxyRequest = some q) : Told es os (.request r.remotePeerId q)
  | command {r : NodeCmdRequest} {c : Command} (hr : .cmdRequest r ∈ es)
      (hc : r.cmdRequest = some c) : Told es os (.command r.remotePeerId c)
  | frame {w : WrappedStream} {msg : Bytes} {relay : Relay} (hw : Told es os (.stream w))
      (hmsg : .frame w.streamId (.ok msg) ∈ es) (hrelay : Codec.decode msg = some relay) :
      Told es os (.frame w relay)
  | written {w : WrappedStream} {data : Bytes} {relay : Relay} (hw : .write w data ∈ os)
      (hrelay : Codec.decode data = some relay) : Told es os (.written w relay)
  | inbound {w : WrappedStream} (hw : .inbound w ∈ es) : Told es os (.stream w)
  | opened {w : WrappedStream} (hw : .opened w ∈ os) : Told es os (.stream w)
  | dials {id : String} (h : .call (.dial id) ∈ es) : Told es os (.dials id)

def told (es : List Event) (os : List Output) : Set Known := {k | Told es os k}

section

variable {es es' : List Event} {os os' : List Output}

omit [Crypto] in
theorem Told.mono {k : Known} (h : Told es os k) (hes : es ⊆ es') (hos : os ⊆ os') :
    Told es' os' k := by
  induction h with
  | request hr hq => exact .request (hes hr) hq
  | command hr hc => exact .command (hes hr) hc
  | frame _ hmsg hrelay ih => exact .frame ih (hes hmsg) hrelay
  | written hw hrelay => exact .written (hos hw) hrelay
  | inbound hw => exact .inbound (hes hw)
  | opened hw => exact .opened (hos hw)
  | dials h => exact .dials (hes h)

omit [Crypto] in
theorem told_append (es' : List Event) (os' : List Output) :
    told es os ⊆ told (es ++ es') (os ++ os') :=
  fun _ h => Told.mono h (List.subset_append_left _ _) (List.subset_append_left _ _)

omit [Crypto] in
theorem told_stream {w : WrappedStream} (h : Told es os (.stream w)) :
    .inbound w ∈ es ∨ .opened w ∈ os := by
  cases h with
  | inbound hw => exact Or.inl hw
  | opened hw => exact Or.inr hw

theorem called_ready {t : Task} (ht : t.Called) (h : .call t ∈ es) : t.Ready (told es os) := by
  cases t with
  | relayEventHandler | writeRelayArc | processHandshake => cases ht
  | dial => exact Told.dials h
  | _ => trivial

end

/-! ## What a step takes -/

/-- Frames and messages are taken, a stream gets an identifier that no other one has, and no waiter
is resolved. -/
structure Takes (s s' : Shared) (o : List Output) : Prop where
  inbox : ∀ i, s'.inbox i ⊆ s.inbox i
  proxyRequests : s'.proxyRequests ⊆ s.proxyRequests
  cmdRequests : s'.cmdRequests ⊆ s.cmdRequests
  streams : s.streams ⊆ s'.streams
  opened : ∀ w, .opened w ∈ o → w.streamId ∈ s'.streams ∧ w.streamId ∉ s.streams ∧ o = [.opened w]
  sent : ∀ n ack, s'.oneshots n = .sent ack → s.oneshots n = .sent ack

/-- What a program does by itself: one of the updates, or the state of a transport changes. -/
def Small (f : Shared → Shared) : Prop :=
  (∃ u : Update, f = u.apply) ∨ ∀ s, ∃ transports, f s = { s with transports }

abbrev Modest {α : Type} (p : Async α) : Prop := p.Within Small (fun _ => True) fun _ => True

/-- The threads of the node do such steps. -/
abbrev Steady (p : NodePool) : Prop := p.Within Small fun _ => True

section

variable {s : Shared} {node : Node} {p p' : NodePool} {e : Event} {i : ℕ} {c : Choice}
  {o : List Output}

omit [Codec] in
theorem Takes.same {s' : Shared} (hinbox : s'.inbox = s.inbox)
    (hproxy : s'.proxyRequests = s.proxyRequests) (hcmd : s'.cmdRequests = s.cmdRequests)
    (hstreams : s'.streams = s.streams) (ho : ∀ w, .opened w ∉ o)
    (honeshots : s'.oneshots = s.oneshots) : Takes s s' o where
  inbox i := by rw [hinbox]; exact List.Subset.refl _
  proxyRequests := by rw [hproxy]; exact List.Subset.refl _
  cmdRequests := by rw [hcmd]; exact List.Subset.refl _
  streams := by rw [hstreams]; exact List.Subset.refl _
  opened w hw := absurd hw (ho w)
  sent n ack hn := by rwa [honeshots] at hn

theorem apply_takes (u : Update) : Takes s (u.apply s) [] := by
  cases u with
  | addCircuit sid stream | data sid b =>
    simp only [Update.apply]
    split <;> exact .same rfl rfl rfl rfl (by simp) rfl
  | waiter contents =>
    refine ⟨fun _ _ h => h, fun _ h => h, fun _ h => h, fun _ h => h, by simp, fun n ack hn => ?_⟩
    change (s.register contents.key).oneshots n = .sent ack at hn
    by_cases hb : s.eventBus contents.key = some n
    · rw [Acks.register_displaced hb] at hn
      cases hn
    · rwa [Acks.register_other hb] at hn
  | _ => exact .same rfl rfl rfl rfl (by simp) rfl

theorem small_takes {f : Shared → Shared} (hf : Small f) : Takes s (f s) [] := by
  rcases hf with ⟨u, rfl⟩ | htransport
  · exact apply_takes u
  · obtain ⟨transports, hs⟩ := htransport s
    rw [hs]
    exact .same rfl rfl rfl rfl (by simp) rfl

theorem small_of_touches {α : Type} {p : Async α} (hp : Touches p) : Modest p :=
  hp.mono (fun _ h => Or.inl h) (fun _ h => h) fun _ h => h

theorem Task.body_small (t : Task) : Modest (t.body node) := small_of_touches t.body_touches

/-- The request takes nothing that has arrived, and opens no stream. -/
def Act.Idle : Act → Prop
  | .newRelayStream _ | .read _ | .nextProxyRequest | .nextCmdRequest => False
  | _ => True

omit [Codec] in
theorem reply_idle {a : Act} {x : Reply Shared Task Output a.Res} (ha : a.Idle)
    (hx : Shared.reply a c s = some x) : Takes s x.state x.outputs := by
  unfold Shared.reply at hx
  split at hx
  all_goals first
    | exact ha.elim
    | (obtain ⟨_, _, -, rfl⟩ := Shared.dequeue_eq_some hx
       exact .same rfl rfl rfl rfl (by simp) rfl)
    | (cases hx <;> exact .same rfl rfl rfl rfl (by simp) rfl)
    | (split at hx <;> cases hx <;> exact .same rfl rfl rfl rfl (by simp) rfl)

omit [Codec] in
theorem reply_newRelayStream {peer : PeerId} {x : Reply Shared Task Output (Option WrappedStream)}
    (hx : Shared.reply (.newRelayStream peer) c s = some x) :
    (∃ w, w.streamId ∉ s.streams ∧
      x = ⟨some w, { s with streams := w.streamId :: s.streams }, [.opened w], []⟩) ∨
    x = ⟨none, s, [], []⟩ := by
  cases c with
  | stream o =>
    cases o with
    | none =>
      cases hx
      exact Or.inr rfl
    | some w =>
      simp only [Shared.reply] at hx
      split at hx
      · next hw =>
        cases hx
        exact Or.inl ⟨w, hw.2, rfl⟩
      · cases hx
  | _ => cases hx

omit [Codec] in
theorem reply_takes {a : Act} {x : Reply Shared Task Output a.Res}
    (hx : Shared.reply a c s = some x) : Takes s x.state x.outputs := by
  have hrefl {α : Type} (q : List α) : q ⊆ q := List.Subset.refl q
  have hsub {α : Type} {b : α} {q q' : List α} (h : q = b :: q') : q' ⊆ q := by
    rw [h]
    exact List.subset_cons_self _ _
  cases a with
  | newRelayStream peer =>
    rcases reply_newRelayStream hx with ⟨w, hw, rfl⟩ | rfl
    · refine ⟨fun _ => hrefl _, hrefl _, hrefl _, List.subset_cons_self _ _, ?_, fun _ _ => id⟩
      rintro _ ho
      obtain ⟨⟩ := List.mem_singleton.mp ho
      exact ⟨List.mem_cons_self, hw, rfl⟩
    · exact .same rfl rfl rfl rfl (by simp) rfl
  | read w =>
    obtain ⟨res, q, hq, rfl⟩ := Shared.dequeue_eq_some hx
    refine ⟨fun i => ?_, hrefl _, hrefl _, hrefl _, by simp, fun _ _ => id⟩
    dsimp only
    rw [Function.update_apply]
    split
    · next hi =>
      rw [hi]
      exact hsub hq
    · exact hrefl _
  | nextProxyRequest =>
    obtain ⟨r, q, hq, rfl⟩ := Shared.dequeue_eq_some hx
    exact ⟨fun _ => hrefl _, hsub hq, hrefl _, hrefl _, by simp, fun _ _ => id⟩
  | nextCmdRequest =>
    obtain ⟨r, q, hq, rfl⟩ := Shared.dequeue_eq_some hx
    exact ⟨fun _ => hrefl _, hrefl _, hsub hq, hrefl _, by simp, fun _ _ => id⟩
  | _ => exact reply_idle trivial hx

/-- What a node has is what it had and what the event has brought. -/
structure Brings (e : Event) (s s' : Shared) (o : List Output) : Prop where
  inbox : ∀ i res, res ∈ s'.inbox i → res ∈ s.inbox i ∨ e = .frame i res
  proxyRequests : ∀ r ∈ s'.proxyRequests, r ∈ s.proxyRequests ∨ e = .proxyRequest r
  cmdRequests : ∀ r ∈ s'.cmdRequests, r ∈ s.cmdRequests ∨ e = .cmdRequest r
  streams : s.streams ⊆ s'.streams
  fresh : ∀ w, e = .inbound w ∨ .opened w ∈ o →
    w.streamId ∈ s'.streams ∧ w.streamId ∉ s.streams ∧
      ∀ w', e = .inbound w' ∨ .opened w' ∈ o → w' = w
  sent : ∀ n ack, s'.oneshots n = .sent ack →
    s.oneshots n = .sent ack ∨ ∃ peer, e = .ack peer ack

omit [Codec] in
theorem Takes.brings {s' : Shared} (h : Takes s s' o) (he : ∀ w, e ≠ .inbound w) :
    Brings e s s' o where
  inbox j res hres := Or.inl (h.inbox j hres)
  proxyRequests r hr := Or.inl (h.proxyRequests hr)
  cmdRequests r hr := Or.inl (h.cmdRequests hr)
  streams := h.streams
  sent n ack hn := Or.inl (h.sent n ack hn)
  fresh := by
    rintro w (hin | hw)
    · exact absurd hin (he w)
    · obtain ⟨hmem, hfresh, rfl⟩ := h.opened w hw
      refine ⟨hmem, hfresh, ?_⟩
      rintro w' (hin | hw')
      · exact absurd hin (he w')
      · exact Output.opened.inj (List.mem_singleton.mp hw')

theorem nodeStep_brings (hp : Steady p) (h : nodeStep node p e = some (p', o)) :
    Steady p' ∧ Brings e p.state p'.state o := by
  have hrefl {α : Type} (q : List α) : q ⊆ q := List.Subset.refl q
  cases e with
  | thread i c =>
    obtain ⟨hp', hmove⟩ := Pool.Within.step (nodeSemantics node) Task.body_small hp h
    refine ⟨hp', Takes.brings ?_ (by simp)⟩
    rcases hmove with ⟨hs, rfl⟩ | ⟨f, hf, hs, rfl⟩ | ⟨a, x, -, hx, hs, rfl⟩
    · rw [hs]
      exact .same rfl rfl rfl rfl (by simp) rfl
    · rw [hs]
      exact small_takes hf
    · rw [hs]
      exact reply_takes hx
  | ack peer ack =>
    cases h
    refine ⟨hp, ?_⟩
    by_cases hb : ∃ n, p.state.eventBus ack.commandId = some n
    · obtain ⟨n, hb⟩ := hb
      rw [Acks.injectAck_some hb]
      refine ⟨fun _ _ => Or.inl, fun _ => Or.inl, fun _ => Or.inl, hrefl _, by simp, ?_⟩
      intro m ack' hm
      dsimp only at hm
      rw [Function.update_apply] at hm
      split at hm
      · cases hm
        exact Or.inr ⟨peer, rfl⟩
      · exact Or.inl hm
    · rw [Acks.injectAck_none (Option.eq_none_iff_forall_ne_some.mpr fun n hn => hb ⟨n, hn⟩)]
      exact Takes.brings (.same rfl rfl rfl rfl (by simp) rfl) (by simp)
  | gossip data =>
    cases h
    exact ⟨hp, Takes.brings (.same rfl rfl rfl rfl (by simp) rfl) (by simp)⟩
  | call t =>
    cases h
    refine ⟨hp.append [t.body node] ?_ rfl,
      Takes.brings (.same rfl rfl rfl rfl (by simp) rfl) (by simp)⟩
    rintro _ ht
    rw [List.mem_singleton.mp ht]
    exact t.body_small
  | proxyRequest r =>
    cases h
    refine ⟨hp, fun _ _ => Or.inl, fun q hq => ?_, fun _ => Or.inl, hrefl _, by simp,
      fun _ _ => Or.inl⟩
    rcases List.mem_append.mp hq with hq | hq
    · exact Or.inl hq
    · exact Or.inr (by rw [List.mem_singleton.mp hq])
  | cmdRequest r =>
    cases h
    refine ⟨hp, fun _ _ => Or.inl, fun _ => Or.inl, fun q hq => ?_, hrefl _, by simp,
      fun _ _ => Or.inl⟩
    rcases List.mem_append.mp hq with hq | hq
    · exact Or.inl hq
    · exact Or.inr (by rw [List.mem_singleton.mp hq])
  | frame id res =>
    cases h
    refine ⟨hp, fun i res' hres => ?_, fun _ => Or.inl, fun _ => Or.inl, hrefl _, by simp,
      fun _ _ => Or.inl⟩
    simp only [Shared.pushFrame, Function.update_apply] at hres
    split at hres
    · next hi =>
      subst hi
      rcases List.mem_append.mp hres with hres | hres
      · exact Or.inl hres
      · exact Or.inr (by rw [List.mem_singleton.mp hres])
    · exact Or.inl hres
  | inbound w =>
    simp only [nodeStep] at h
    split at h
    · cases h
    · next hw =>
      cases h
      refine ⟨hp.append [(Task.relayEventHandler w none).body node] ?_ rfl, fun _ _ => Or.inl,
        fun _ => Or.inl, fun _ => Or.inl, List.subset_cons_self _ _, ?_, fun _ _ => Or.inl⟩
      · rintro _ ht
        rw [List.mem_singleton.mp ht]
        exact Task.body_small _
      · rintro _ (⟨⟨⟩⟩ | ho)
        · refine ⟨List.mem_cons_self, hw, ?_⟩
          rintro _ (⟨⟨⟩⟩ | ho)
          · rfl
          · cases ho
        · cases ho

end

/-! ## All runs -/

/-- What the node knows is what it has been told. -/
structure Informed (es : List Event) (p : NodePool) (os : List Output) : Prop where
  steady : Steady p
  abides : p.Abides conduct ready (told es os)
  inbox : ∀ i res, res ∈ p.state.inbox i → .frame i res ∈ es
  proxyRequests : ∀ r ∈ p.state.proxyRequests, .proxyRequest r ∈ es
  cmdRequests : ∀ r ∈ p.state.cmdRequests, .cmdRequest r ∈ es
  streams : ∀ w, Told es os (.stream w) → w.streamId ∈ p.state.streams
  one : ∀ w w', Told es os (.stream w) → Told es os (.stream w') → w.streamId = w'.streamId → w = w'
  /-- a waiter is resolved by what has arrived -/
  acks : ∀ n ack, p.state.oneshots n = .sent ack → ∃ peer, .ack peer ack ∈ es
  proper : ∀ o ∈ os, o.Proper (told es os)

section

variable {node : Node} {p p' : NodePool} {e : Event} {es : List Event} {o os : List Output}

omit [Crypto] in
theorem told_stream_concat {w : WrappedStream} (h : Told (es ++ [e]) (os ++ o) (.stream w)) :
    Told es os (.stream w) ∨ e = .inbound w ∨ .opened w ∈ o := by
  rcases told_stream h with hw | hw
  · rcases List.mem_append.mp hw with hw | hw
    · exact Or.inl (.inbound hw)
    · exact Or.inr (Or.inl (List.mem_singleton.mp hw).symm)
  · rcases List.mem_append.mp hw with hw | hw
    · exact Or.inl (.opened hw)
    · exact Or.inr (Or.inr hw)

/-- What an answer tells has been told the node. -/
theorem Informed.learned (h : Informed es p os) {a : Act} {c : Choice}
    {x : Reply Shared Task Output a.Res} (ha : a.Allowed (told es os))
    (hx : Shared.reply a c p.state = some x) :
    a.learned x.answer ⊆ told es (os ++ x.outputs) := by
  cases a with
  | newRelayStream peer =>
    rcases reply_newRelayStream hx with ⟨w, -, rfl⟩ | rfl
    · rintro _ ⟨⟩
      exact Told.opened (List.mem_append_right _ List.mem_cons_self)
    · exact Set.empty_subset _
  | write w data =>
    cases hx
    rintro _ ⟨relay, hrelay, rfl⟩
    exact Told.written (List.mem_append_right _ List.mem_cons_self) hrelay
  | read w =>
    obtain ⟨res, q, hq, rfl⟩ := Shared.dequeue_eq_some hx
    have hres : res ∈ p.state.inbox w.streamId := by rw [hq]; exact List.mem_cons_self
    cases res with
    | error => exact Set.empty_subset _
    | ok msg =>
      rintro _ ⟨relay, hrelay, rfl⟩
      rw [List.append_nil]
      exact Told.frame ha (h.inbox _ _ hres) hrelay
  | nextProxyRequest =>
    obtain ⟨r, q, hq, rfl⟩ := Shared.dequeue_eq_some hx
    rintro _ ⟨request, hrequest, rfl⟩
    refine Told.request (h.proxyRequests r ?_) hrequest
    rw [hq]
    exact List.mem_cons_self
  | nextCmdRequest =>
    obtain ⟨r, q, hq, rfl⟩ := Shared.dequeue_eq_some hx
    rintro _ ⟨command, hcommand, rfl⟩
    refine Told.command (h.cmdRequests r ?_) hcommand
    rw [hq]
    exact List.mem_cons_self
  | _ => exact Set.empty_subset _

/-- One step, in which the application starts only what it can. -/
theorem Informed.step (h : Informed es p os) (hcall : ∀ t, e = .call t → t.Called)
    (hs : nodeStep node p e = some (p', o)) : Informed (es ++ [e]) p' (os ++ o) := by
  have hgrows : told es os ⊆ told (es ++ [e]) (os ++ o) := told_append [e] o
  obtain ⟨hsteady, hbrings⟩ := nodeStep_brings h.steady hs
  obtain ⟨habides, ho⟩ := nodeStep_abides (L := told (es ++ [e]) (os ++ o)) hgrows h.abides
    (by
      rintro i c a x rfl ha hx rfl
      exact (h.learned ha hx).trans fun _ hk =>
        hk.mono (List.subset_append_left _ _) (List.Subset.refl _))
    (by
      rintro w rfl
      exact .inbound (List.mem_append_right _ List.mem_cons_self))
    (by
      rintro t rfl
      exact called_ready (hcall t rfl) (List.mem_append_right _ List.mem_cons_self)) hs
  constructor
  · exact hsteady
  · exact habides
  · intro i res hres
    rcases hbrings.inbox i res hres with hold | rfl
    · exact List.mem_append_left _ (h.inbox i res hold)
    · exact List.mem_append_right _ List.mem_cons_self
  · intro r hr
    rcases hbrings.proxyRequests r hr with hold | rfl
    · exact List.mem_append_left _ (h.proxyRequests r hold)
    · exact List.mem_append_right _ List.mem_cons_self
  · intro r hr
    rcases hbrings.cmdRequests r hr with hold | rfl
    · exact List.mem_append_left _ (h.cmdRequests r hold)
    · exact List.mem_append_right _ List.mem_cons_self
  · intro w hw
    rcases told_stream_concat hw with hold | hnew
    · exact hbrings.streams (h.streams w hold)
    · exact (hbrings.fresh w hnew).1
  · intro w w' hw hw' hid
    rcases told_stream_concat hw with hold | hnew <;>
      rcases told_stream_concat hw' with hold' | hnew'
    · exact h.one w w' hold hold' hid
    · exact absurd (hid ▸ h.streams w hold) (hbrings.fresh w' hnew').2.1
    · exact absurd (hid ▸ h.streams w' hold') (hbrings.fresh w hnew).2.1
    · exact (hbrings.fresh w' hnew').2.2 w hnew
  · intro n ack hn
    rcases hbrings.sent n ack hn with hold | ⟨peer, rfl⟩
    · obtain ⟨peer, hpeer⟩ := h.acks n ack hold
      exact ⟨peer, List.mem_append_left _ hpeer⟩
    · exact ⟨peer, List.mem_append_right _ List.mem_cons_self⟩
  · intro out hout
    rcases List.mem_append.mp hout with hold | hnew
    · exact (h.proper out hold).mono hgrows
    · exact ho out hnew

theorem start_informed {ts : List Task} (hts : ∀ t ∈ ts, t.Ready ∅) :
    Informed [] (Acks.start node ts) [] where
  steady := by
    rintro _ ht
    obtain ⟨t, -, rfl⟩ := List.mem_map.mp ht
    exact t.body_small
  abides := start_abides fun t ht => (hts t ht).mono (Set.empty_subset _)
  inbox _ _ hres := by cases hres
  proxyRequests _ hr := by cases hr
  cmdRequests _ hr := by cases hr
  streams w hw := by rcases told_stream hw with h | h <;> cases h
  one w _ hw := by rcases told_stream hw with h | h <;> cases h
  acks _ _ hn := by cases hn
  proper _ ho := by cases ho

/-! ## The application on its circuits -/

/-- What an application does with a circuit. -/
inductive Use where
  | sendMessage (sessionId : String) (message : Bytes)
  | read (circuitConn : CircuitConn) (buf : Bytes)

def Use.body : Use → Thread
  | .sendMessage sessionId message => do
    Node.sendMessage sessionId message
    return none
  | .read circuitConn buf => do
    let _ ← circuitConn.read buf
    return none

def useCircuit (p : NodePool) (u : Use) : NodePool := { p with threads := p.threads ++ [u.body] }

theorem Use.body_small (u : Use) : Modest u.body := by
  have hseq {α β : Type} {p : Async α} {g : α → Async β}
      (hp : Modest p) (hg : ∀ a, Modest (g a)) : Modest (p >>= g) :=
    .bind (hp.mono (fun _ h => h) (fun _ h => h) fun a _ => hg a)
  have hcomposed {α : Type} {p : Async α} (hp : Composed p) : Modest p := small_of_touches hp.touches
  have htransport {α : Type} {f : Shared → Shared} {g : Shared → α}
      (hf : ∀ s, ∃ transports, f s = { s with transports }) :
      Modest (Prog.update f g) :=
    ⟨Or.inr hf, fun _ => trivial⟩
  cases u with
  | sendMessage sid message =>
    refine hseq ?_ fun _ => hcomposed (.pure _)
    refine hseq (hcomposed (.read _)) fun _ => hseq (hcomposed (.unwrap _)) fun conn => ?_
    split
    · exact hcomposed (.pure _)
    · unfold CircuitConn.write
      split
      · exact hcomposed (.pure _)
      · refine hseq (hseq (htransport fun s => ?_) fun _ => hcomposed ?_) fun _ => hcomposed ?_
        · split
          · exact ⟨s.transports, rfl⟩
          · exact ⟨_, rfl⟩
        · exact .bind (.unwrap _) fun _ => .pure _
        · exact writePayloadArc_composed
  | read conn buf =>
    refine hseq ?_ fun _ => hcomposed (.pure _)
    unfold CircuitConn.read
    split
    · exact hcomposed (.pure _)
    · refine hseq (hcomposed (.call _)) fun _ => hseq (hcomposed (.unwrap _)) fun _ => ?_
      refine hseq (hseq (htransport fun s => ?_) fun _ => hcomposed ?_) fun _ =>
        hcomposed (.unwrap _)
      · split
        · exact ⟨s.transports, rfl⟩
        · exact ⟨_, rfl⟩
      · exact .bind (.unwrap _) fun _ => .pure _

theorem Use.body_abides {K : Set Known} (u : Use) : u.body.Abides conduct ready K := by
  cases u with
  | sendMessage => exact .seq sendMessage_proper fun _ => .pure ready_none
  | read => exact .seq circuitRead_proper fun _ => .pure ready_none

theorem Informed.use (h : Informed es p os) (u : Use) : Informed es (useCircuit p u) os where
  steady := h.steady.append [u.body] (by
    rintro _ ht
    rw [List.mem_singleton.mp ht]
    exact u.body_small) rfl
  abides := by
    refine ⟨h.abides.holds, fun t ht => ?_⟩
    rcases List.mem_append.mp ht with ht | ht
    · exact h.abides.threads t ht
    · rw [List.mem_singleton.mp ht]
      exact u.body_abides
  inbox := h.inbox
  proxyRequests := h.proxyRequests
  cmdRequests := h.cmdRequests
  streams := h.streams
  one := h.one
  acks := h.acks
  proper := h.proper

/-- An event at the node, or the application uses a circuit. -/
def clientStep (node : Node) (p : NodePool) : Event ⊕ Use → Option (NodePool × List Output)
  | .inl e => nodeStep node p e
  | .inr u => some (useCircuit p u, [])

/-- All that a node sends rests on what has come to it. -/
theorem traffic_proper {ts : List Task} {es : List (Event ⊕ Use)} (hts : ∀ t ∈ ts, t.Ready ∅)
    (hes : ∀ t, .inl (.call t) ∈ es → t.Called)
    (h : run (clientStep node) (Acks.start node ts) es = some (p, os)) :
    ∀ o ∈ os, o.Proper (told (es.filterMap Sum.getLeft?) os) := by
  have hinformed : (∀ t, .inl (.call t) ∈ es → t.Called) →
      Informed (es.filterMap Sum.getLeft?) p os := by
    refine run_induction (P := fun es p os => (∀ t, .inl (.call t) ∈ es → t.Called) →
      Informed (es.filterMap Sum.getLeft?) p os) (fun _ => start_informed hts) ?_ h
    intro es p os e p' o ih hs hes
    have hprior := ih fun t ht => hes t (List.mem_append_left _ ht)
    rw [List.filterMap_append]
    cases e with
    | inl e =>
      refine hprior.step ?_ hs
      rintro t rfl
      exact hes t (List.mem_append_right _ List.mem_cons_self)
    | inr u =>
      cases hs
      rw [List.append_nil]
      exact (List.append_nil _).symm ▸ hprior.use u
  exact (hinformed hes).proper

end

end Generic

namespace Traffic.Sample

def peer : PeerId := ⟨"peer"⟩

def node : Node := ⟨(⟨.ed25519, List.replicate 32 7⟩ : Ideal.Keypair), some peer, none⟩

/-- The node dials and writes the first frame to its proxy. -/
def dials : List (Event ⊕ Use) :=
  [.inl (.call (.dial "02")), .inl (.thread 0 (.micros 1)), .inl (.thread 0 .go),
    .inr (.sendMessage "" []), .inl (.thread 0 (.stream (some ⟨peer, 0⟩))),
    .inl (.thread 0 (.bytes [1, 2, 3])), .inl (.thread 0 .go)]

end Traffic.Sample

theorem traffic_proper_dialed : ∃ p os,
    run (clientStep Traffic.Sample.node) (Acks.start Traffic.Sample.node []) Traffic.Sample.dials =
      some (p, os) ∧
    os.length = 2 ∧
    ∀ o ∈ os, o.Proper (told (Traffic.Sample.dials.filterMap Sum.getLeft?) os) := by
  obtain ⟨p, os, hr, hlen⟩ := exists_run (clientStep Traffic.Sample.node)
    (Acks.start Traffic.Sample.node []) Traffic.Sample.dials (fun r => r.2.length = 2)
    (by decide +kernel)
  refine ⟨p, os, hr, of_decide_eq_true hlen, traffic_proper (by simp) (fun t ht => ?_) hr⟩
  simp only [Traffic.Sample.dials, List.mem_cons, List.not_mem_nil, or_false, reduceCtorEq,
    Sum.inl.injEq, Event.call.injEq] at ht
  rw [ht]
  rfl

end WhiteNoise
