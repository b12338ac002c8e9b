import WhiteNoise.Network.Ideal
import WhiteNoise.Session.Operations
import WhiteNoise.Process.Budget

/-! # How often a handshake is started

A client starts a handshake for every success it hears of, and a handshake
that ends replaces the transport state of the circuit. Each of the two is paid
for by a frame that arrived.
-/

namespace WhiteNoise.SingleHandshake

open Wire Process

section Generic

variable [Codec] [Crypto]

/-- What a stream brings is a success that names the session. -/
def confirms (sid : String) : ReadResult → Bool
  | .error _ => false
  | .ok msg =>
    match (Codec.decode msg : Option Relay) with
    | none => false
    | some relay =>
      relay.type = Relaytype.success.toI32 ∧
        (Codec.decode relay.data : Option CircuitSuccess).any (·.sessionId = sid)

/-- A success or data frame, of any session, or one that does not decode. -/
def isTraffic : ReadResult → Bool
  | .error _ => false
  | .ok msg =>
    (Codec.decode msg : Option Relay).all fun relay =>
      relay.type = Relaytype.success.toI32 ∨ relay.type = Relaytype.data.toI32

/-- The thread is about to start a handshake for the session. -/
def starts (sid : String) (p : NodePool) : Event → Bool
  | .thread i _ =>
    match p.threads[i]? with
    | some (.act (.spawn (.processHandshake _ _ x)) _) => x = sid
    | _ => false
  | _ => false

/-- A success that names the session arrives. -/
def brings (sid : String) : Event → Bool
  | .frame _ res => confirms sid res
  | _ => false

/-- The events at a client between the creation and the close of a session: its threads take
turns, success and data frames arrive, requests queue up and streams are accepted. -/
def Admitted : Event → Prop
  | .frame _ res => isTraffic res
  | .call _ => False
  | _ => True

/-- The transport state of the circuit of the session. -/
def transport (sid : String) (s : Shared) : Option ℕ := (s.circuitMap sid).bind (·.transportState)

/-- The handlers of the streams wait for frames, and the circuit has no transport state. -/
structure Created (node : Node) (sid : String) (p : NodePool) : Prop where
  handlers : ∀ t ∈ p.threads, ∃ stream current,
    t = Task.body node (.relayEventHandler stream current)
  inbox : ∀ w, p.state.inbox w = []
  transport : transport sid p.state = none

/-! ## What a program pays -/

/-- The update leaves the queues of the streams and the circuit of the session alone. -/
def Keeps (sid : String) (f : Shared → Shared) : Prop :=
  ∀ s, (f s).inbox = s.inbox ∧ transport sid (f s) = transport sid s

/-- The update gives the circuit of the session a transport state. -/
def Establishes (sid : String) (f : Shared → Shared) : Prop :=
  ∀ s, (f s).inbox = s.inbox ∧ (transport sid (f s)).isSome

/-- A handshake for the session costs one, a transport state for it the price. A success that names
it brings one. -/
def tariff (sid : String) (price : ℕ) : Tariff Shared Act.Res where
  fee f c := c = 0 ∧ Keeps sid f ∨ c = price ∧ Establishes sid f
  toll a c :=
    match a with
    | .spawn (.processHandshake _ _ x) => c = (decide (x = sid)).toNat
    | .spawn _ => False
    | _ => c = 0
  ok
    | .read _, res => isTraffic res
    | _, _ => True
  gain
    | .read _, res => (confirms sid res).toNat
    | _, _ => 0

/-- What a thread that ends may go on as. -/
def Goes : ℕ → Option Task → Prop
  | _, none => True
  | _, some t => ∃ stream current, t = .relayEventHandler stream current

variable {node : Node} {sid : String} {price : ℕ}

/-- A program that starts nothing, reads no stream and leaves the circuit of the session alone. -/
abbrev Free (sid : String) {α : Type} (p : Async α) : Prop :=
  p.Within (Keeps sid) Act.Plain fun _ => True

theorem tariff_plain (sid : String) (price : ℕ) {a : Act} (ha : a.Plain) :
    (∀ c, (tariff sid price).toll a c ↔ c = 0) ∧
      ∀ r, (tariff sid price).ok a r ∧ (tariff sid price).gain a r = 0 := by
  cases a with
  | spawn | read => exact ha.elim
  | _ => exact ⟨fun _ => Iff.rfl, fun _ => ⟨trivial, rfl⟩⟩

theorem Free.pays {α : Type} {Q : ℕ → α → Prop} {n : ℕ} {p : Async α} (hp : Free sid p)
    (hQ : ∀ a, Q n a) : p.Pays (tariff sid price) Q n :=
  Prog.Within.pays (fun _ hf => Or.inl ⟨rfl, hf⟩)
    (fun _ ha => ⟨((tariff_plain sid price ha).1 0).mpr rfl,
      fun r => ((tariff_plain sid price ha).2 r).2⟩) hp fun a _ => hQ a

/-- A free program first, and the budget is there for the rest. -/
theorem Free.bind_pays {α β : Type} {Q : ℕ → β → Prop} {n : ℕ} {p : Async α} {g : α → Async β}
    (hp : Free sid p) (hg : ∀ a, (g a).Pays (tariff sid price) Q n) :
    (p >>= g).Pays (tariff sid price) Q n :=
  (Free.pays (Q := fun m _ => m = n) hp fun _ => rfl).bind fun _ a hm => hm ▸ hg a

omit [Codec] in
theorem quiet_free {α : Type} {p : Async α} (hp : Quiet p) : Free sid p := by
  refine hp.mono ?_ ?_ fun _ _ => trivial
  · rintro f rfl s
    exact ⟨rfl, rfl⟩
  · intro a ha
    cases a with
    | spawn | read => exact ha.elim
    | _ => trivial

omit [Codec] in
theorem unwrap_free {α : Type} {o : Option α} : Free sid (Prog.unwrap o) := by
  cases o <;> trivial

omit [Codec] in
theorem keeps_id : Keeps sid id := fun _ => ⟨rfl, rfl⟩

/-! ### The handler -/

theorem handleRelayMsg_free {stream : WrappedStream} {relay : Relay} :
    Free sid (handleRelayMsg stream relay) := by
  unfold handleRelayMsg
  cases (Codec.decode relay.data : Option RelayMsg) with
  | none => trivial
  | some msg =>
    simp only [Async.getSession, Prog.read_bind]
    refine ⟨keeps_id, fun s => ?_⟩
    beta_reduce
    cases s.sessionMap msg.sessionId with
    | none => trivial
    | some session =>
      dsimp only
      split
      · refine ⟨fun s => ?_, fun _ => trivial⟩
        beta_reduce
        cases s.circuitMap msg.sessionId <;> exact ⟨rfl, rfl⟩
      · split
        · exact quiet_free forwardRelay_quiet
        · trivial

/-- The success pays for the handshake it starts. -/
theorem handleSuccess_pays {stream : WrappedStream} {relay : Relay} :
    (handleSuccess stream relay).Pays (tariff sid price) (fun _ _ => True)
      ((Codec.decode relay.data : Option CircuitSuccess).any (·.sessionId = sid)).toNat := by
  have hspawn (x : String) (initiate : Bool) :
      Prog.Pays (tariff sid price) (fun _ _ => True) (decide (x = sid)).toNat (do
        let circuitConn ← Prog.unwrap (← Async.getCircuit x)
        Async.spawn (.processHandshake circuitConn initiate x)) := by
    refine Free.bind_pays ⟨keeps_id, fun _ => trivial⟩ fun conn => ?_
    refine Free.bind_pays unwrap_free fun conn => ?_
    exact ⟨(decide (x = sid)).toNat, 0, rfl, rfl, fun _ _ => trivial⟩
  unfold handleSuccess
  cases (Codec.decode relay.data : Option CircuitSuccess) with
  | none => trivial
  | some msg =>
    refine Free.bind_pays ⟨keeps_id, fun _ => trivial⟩ fun session => ?_
    cases session with
    | none => trivial
    | some session =>
      dsimp only
      split
      · exact hspawn msg.sessionId true
      · split
        · exact hspawn msg.sessionId false
        · split
          · exact (quiet_free forwardRelay_quiet).pays (fun _ => trivial)
          · trivial

theorem relayEventHandler_pays {stream : WrappedStream} {current : Option String} :
    (relayEventHandler stream current).Pays (tariff sid price) Goes 0 := by
  have hgoes (n : ℕ) : Prog.Pays (tariff sid price) Goes n
      (.ret (some (.relayEventHandler stream current)) : Thread) := ⟨stream, current, rfl⟩
  rw [relayEventHandler_eq]
  refine ⟨0, 0, rfl, rfl, ?_⟩
  intro res hres
  cases res with
  | error e => cases hres
  | ok msg =>
    rw [show (tariff sid price).gain (.read stream) (.ok msg) = (confirms sid (.ok msg)).toNat
      from rfl, Nat.zero_add]
    simp only [tariff, isTraffic] at hres
    dsimp only [confirms]
    cases hdec : (Codec.decode msg : Option Relay) with
    | none => trivial
    | some relay =>
      simp only [hdec, Option.all_some, decide_eq_true_eq] at hres
      simp only [Prog.unwrap_some, Prog.ret_bind]
      rcases hres with hsuccess | hdata
      · rw [relayEvent_success hsuccess]
        simp only [hsuccess, true_and, Bool.decide_eq_true, bind_assoc, Prog.pure_eq, Prog.ret_bind]
        exact handleSuccess_pays.bind fun n _ _ => hgoes n
      · rw [relayEvent_data hdata]
        simp only [bind_assoc, Prog.pure_eq, Prog.ret_bind]
        exact Free.bind_pays handleRelayMsg_free fun _ => hgoes _

/-! ### The handshake -/

theorem writeRelayArc_free {stream : WrappedStream} {relay : Relay} :
    Free sid (writeRelayArc stream relay) :=
  quiet_free writeRelayArc_quiet

theorem writeShake_free {conn : CircuitConn} {x : String} {noise : Crypto.Handshake}
    {payload : Bytes} : Free sid (writeShake conn x noise payload) := by
  simp only [writeShake, Prog.call_bind]
  refine ⟨trivial, fun rand => ?_⟩
  beta_reduce
  cases Crypto.writeMessage rand noise payload with
  | none => trivial
  | some written =>
    simp only [Prog.unwrap_some, Prog.ret_bind, writeHandshakePayloadArc, writePayloadArc]
    split
    · trivial
    · rw [bind_assoc]
      exact Prog.Within.bind (writeRelayArc_free.mono (fun _ h => h) (fun _ h => h)
        fun _ _ => trivial)

omit [Codec] in
theorem readShake_free {conn : CircuitConn} {noise : Crypto.Handshake} :
    Free sid (readShake conn noise) :=
  ⟨trivial, fun _ => unwrap_free⟩

/-- The transport state is paid for. -/
theorem establish_pays {conn : CircuitConn} {x : String} {noise : Crypto.Handshake} :
    (establish conn x noise).Pays (tariff sid price) (fun _ _ => True)
      (if x = sid then price else 0) := by
  refine Free.bind_pays unwrap_free fun state => ?_
  refine Free.bind_pays ⟨fun _ => ⟨rfl, rfl⟩, fun _ => trivial⟩ fun ref => ?_
  by_cases hx : x = sid
  · subst hx
    refine ⟨price, 0, by simp, Or.inr ⟨rfl, fun s => ⟨rfl, ?_⟩⟩, fun _ => trivial⟩
    simp [transport]
  · refine ⟨0, 0, by simp [hx], Or.inl ⟨rfl, fun s => ⟨rfl, ?_⟩⟩, fun _ => trivial⟩
    simp only [transport, Function.update_of_ne (Ne.symm hx)]

theorem processHandshake_pays {conn : CircuitConn} {initiate : Bool} {x : String} :
    (processHandshake node conn initiate x).Pays (tariff sid price) (fun _ _ => True)
      (if x = sid then price else 0) := by
  unfold processHandshake
  refine Free.bind_pays ⟨trivial, fun _ => trivial⟩ fun seed => ?_
  refine Free.bind_pays unwrap_free fun keys => ?_
  cases initiate with
  | true =>
    refine Free.bind_pays unwrap_free fun noise => ?_
    refine Free.bind_pays writeShake_free fun noise => ?_
    refine Free.bind_pays readShake_free fun heard => ?_
    refine Free.bind_pays unwrap_free fun pubkey => ?_
    refine Free.bind_pays unwrap_free fun verified => ?_
    refine Free.bind_pays unwrap_free fun payload => ?_
    refine Free.bind_pays writeShake_free fun noise => ?_
    exact establish_pays
  | false =>
    refine Free.bind_pays unwrap_free fun verified => ?_
    refine Free.bind_pays unwrap_free fun noise => ?_
    refine Free.bind_pays readShake_free fun heard => ?_
    refine Free.bind_pays unwrap_free fun payload => ?_
    refine Free.bind_pays writeShake_free fun noise => ?_
    refine Free.bind_pays readShake_free fun heard => ?_
    refine Free.bind_pays unwrap_free fun pubkey => ?_
    refine Free.bind_pays unwrap_free fun verified => ?_
    exact establish_pays

/-! ## What a node can still spend -/

/-- The threads and the successes that are not read yet are worth at most `n`. -/
structure Funded (sid : String) (price : ℕ) (p : NodePool) (n : ℕ) : Prop where
  traffic : ∀ w, ∀ res ∈ p.state.inbox w, isTraffic res
  funds : ∃ (q ns : List ℕ), (∀ w, q.count w = (p.state.inbox w).countP (confirms sid)) ∧
    List.Forall₂ (fun n t => t.Pays (tariff sid price) Goes n) ns p.threads ∧
    q.length + ns.sum ≤ n

/-- What one event does to the circuit and to the funds. -/
inductive Spent (sid : String) (price : ℕ) (p : NodePool) (e : Event) (p' : NodePool) (n : ℕ) :
    Prop
  | nothing (hs : starts sid p e = false) (ht : transport sid p'.state = transport sid p.state)
      (hf : Funded sid price p' (n + (brings sid e).toNat)) : Spent sid price p e p' n
  | start (m : ℕ) (hn : n = m + 1) (hb : brings sid e = false)
      (ht : transport sid p'.state = transport sid p.state)
      (hf : Funded sid price p' (m + price)) : Spent sid price p e p' n
  | establish (m : ℕ) (hn : n = m + price) (hb : brings sid e = false)
      (hs : starts sid p e = false) (ht : (transport sid p'.state).isSome)
      (hf : Funded sid price p' m) : Spent sid price p e p' n

variable {p p' : NodePool} {e : Event} {n : ℕ} {os : List Output}

theorem body_pays (node : Node) {t : Task} {n : ℕ} (h : Goes n (some t)) :
    (Task.body node t).Pays (tariff sid price) Goes 0 := by
  obtain ⟨stream, current, rfl⟩ := h
  exact relayEventHandler_pays

/-- An event that leaves the queues of the streams alone. -/
theorem funded_of_same {q ns : List ℕ} (htraffic : ∀ w, ∀ res ∈ p.state.inbox w, isTraffic res)
    (hq : ∀ w, q.count w = (p.state.inbox w).countP (confirms sid))
    (hin : p'.state.inbox = p.state.inbox)
    (hall : List.Forall₂ (fun n t => t.Pays (tariff sid price) Goes n) ns p'.threads)
    (hsum : q.length + ns.sum ≤ n) : Funded sid price p' n :=
  ⟨by rwa [hin], q, ns, by rwa [hin], hall, hsum⟩

omit [Codec] [Crypto] in
/-- A frame that is read leaves its queue, and so does the success that it may be. -/
theorem exists_dequeued {inbox inbox' : ℕ → List ReadResult} {confirms : ReadResult → Bool}
    {q : List ℕ} {w : ℕ} {res : ReadResult} {rest : List ReadResult}
    (hq : ∀ v, q.count v = (inbox v).countP confirms) (hw : inbox w = res :: rest)
    (hin : ∀ v, inbox' v = if v = w then rest else inbox v) :
    (∀ v, ∀ x ∈ inbox' v, x ∈ inbox v) ∧ ∃ q' : List ℕ,
      (∀ v, q'.count v = (inbox' v).countP confirms) ∧
        q'.length + (confirms res).toNat = q.length := by
  constructor
  · intro v x hx
    rw [hin] at hx
    split at hx
    · next hv =>
      rw [hv, hw]
      exact List.mem_cons_of_mem _ hx
    · exact hx
  · have hhead : q.count w = (confirms res).toNat + rest.countP confirms := by
      rw [hq, hw, List.countP_cons]
      cases confirms res <;> simp [Nat.add_comm]
    obtain ⟨q', hcount, hlen⟩ := exists_take hhead
    refine ⟨q', fun v => ?_, by omega⟩
    rw [hcount, hin]
    split
    · rfl
    · exact hq v

theorem turn_spent {i : ℕ} {c : Choice} (h : Funded sid price p n)
    (hs : nodeStep node p (.thread i c) = some (p', os)) :
    Spent sid price p (.thread i c) p' n := by
  obtain ⟨htraffic, q, ns, hq, hall, hsum⟩ := h
  obtain ⟨t, r, ht, hr, hst, hthreads, -⟩ := (nodeSemantics node).step_eq_some hs
  obtain ⟨m, hm, hset⟩ := forall₂_set hall ht
  cases t with
  | ret a =>
    cases a with
    | none => cases hr
    | some t =>
      cases hr
      simp only [List.map_nil, List.append_nil] at hthreads hst
      obtain ⟨hall', hsum'⟩ := hset 0 _ (body_pays node hm)
      apply Spent.nothing
      · simp [starts, ht]
      · rw [hst]
      · apply funded_of_same htraffic hq (by rw [hst]) (hthreads ▸ hall')
        omega
  | fail => cases hr
  | atomic f k =>
    cases hr
    simp only [List.map_nil, List.append_nil] at hthreads hst
    obtain ⟨cost, m', rfl, hfee, hk⟩ := hm
    obtain ⟨hall', hsum'⟩ := hset m' _ (hk p.state)
    have hstart : starts sid p (.thread i c) = false := by simp [starts, ht]
    rcases hfee with ⟨rfl, hkeeps⟩ | ⟨rfl, hest⟩
    · obtain ⟨hin, htr⟩ := hkeeps p.state
      apply Spent.nothing hstart (by rw [hst, htr])
      apply funded_of_same htraffic hq (by rw [hst, hin]) (hthreads ▸ hall')
      omega
    · obtain ⟨hin, htr⟩ := hest p.state
      apply Spent.establish (n - cost) (by omega) rfl hstart (by rw [hst, htr])
      apply funded_of_same htraffic hq (by rw [hst, hin]) (hthreads ▸ hall')
      omega
  | act a k =>
    obtain ⟨x, hx, rfl⟩ := Semantics.advance_act hr
    obtain ⟨cost, m', rfl, htoll, hk⟩ := hm
    have htr : transport sid x.state = transport sid p.state := by
      rw [transport, transport, (reply_sameMaps hx).circuitMap]
    simp only at hst hthreads
    rcases a.plain_or with hplain | ⟨task, rfl⟩ | ⟨w, rfl⟩
    · obtain ⟨hin, hsp⟩ := reply_plain hplain hx
      obtain ⟨hfree, hans⟩ := tariff_plain sid price hplain
      obtain rfl := (hfree cost).mp htoll
      have hrest := hk x.answer (hans x.answer).1
      rw [(hans x.answer).2, Nat.add_zero] at hrest
      obtain ⟨hall', hsum'⟩ := hset _ _ hrest
      rw [hsp, List.map_nil, List.append_nil] at hthreads
      have hstart : starts sid p (.thread i c) = false := by
        cases a with
        | spawn => exact hplain.elim
        | _ => simp [starts, ht]
      apply Spent.nothing hstart (by rw [hst, htr])
      apply funded_of_same htraffic hq (by rw [hst, hin]) (hthreads ▸ hall')
      omega
    · cases hx
      cases task with
      | processHandshake conn initiate y =>
        obtain rfl : cost = (decide (y = sid)).toNat := htoll
        obtain ⟨hall', hsum'⟩ := hset m' _ (hk () trivial)
        have hbody : (Task.body node (.processHandshake conn initiate y)).Pays (tariff sid price)
            Goes (if y = sid then price else 0) :=
          processHandshake_pays.bind fun _ _ _ => trivial
        have hall'' : List.Forall₂ (fun n t => t.Pays (tariff sid price) Goes n)
            (ns.set i m' ++ [if y = sid then price else 0]) p'.threads := by
          rw [hthreads]
          exact List.rel_append hall' (.cons hbody .nil)
        by_cases hy : y = sid
        · simp only [hy, decide_true, Bool.toNat_true, if_true] at hsum' hall''
          apply Spent.start (n - 1) (by omega) rfl (by rw [hst])
          apply funded_of_same htraffic hq (by rw [hst]) hall''
          simp only [List.sum_append, List.sum_cons, List.sum_nil]
          omega
        · simp only [hy, decide_false, Bool.toNat_false, if_false] at hsum' hall''
          apply Spent.nothing (by simp [starts, ht, hy]) (by rw [hst])
          apply funded_of_same htraffic hq (by rw [hst]) hall''
          simp only [List.sum_append, List.sum_cons, List.sum_nil]
          omega
      | _ => exact htoll.elim
    · obtain ⟨res, rest, hw, rfl⟩ := Shared.dequeue_eq_some hx
      have hres : isTraffic res := htraffic w.streamId res (by simp [hw])
      obtain rfl : cost = 0 := htoll
      have hrest : (k res).Pays (tariff sid price) Goes (m' + (confirms sid res).toNat) :=
        hk res hres
      obtain ⟨hall', hsum'⟩ := hset _ _ hrest
      simp only [List.map_nil, List.append_nil] at hthreads hst
      have hin (v : ℕ) : p'.state.inbox v = if v = w.streamId then rest else p.state.inbox v := by
        rw [hst]
        exact Function.update_apply ..
      -- a success that is read goes into the thread
      obtain ⟨hmem, q', hcount, hlen⟩ := exists_dequeued hq hw hin
      apply Spent.nothing (by simp [starts, ht]) (by rw [hst]; rfl)
      exact ⟨fun v x hx => htraffic v x (hmem v x hx), q', _, hcount, hthreads ▸ hall', by omega⟩

/-- An event that is no turn of a thread. -/
theorem event_spent (h : Funded sid price p n) (he : Admitted e) (hi : ∀ i c, e ≠ .thread i c)
    (hs : nodeStep node p e = some (p', os)) : Spent sid price p e p' n := by
  obtain ⟨htraffic, q, ns, hq, hall, hsum⟩ := h
  have hkeep (hts : p'.threads = p.threads) (hin : p'.state.inbox = p.state.inbox) :
      Funded sid price p' n :=
    funded_of_same htraffic hq hin (hts ▸ hall) hsum
  cases e with
  | thread i c => exact absurd rfl (hi i c)
  | ack peer ack =>
    cases hs
    refine .nothing rfl ?_ (hkeep rfl ?_)
    · simp only [Shared.injectAck, transport]
      split <;> rfl
    · simp only [Shared.injectAck]
      split <;> rfl
  | proxyRequest | cmdRequest | gossip =>
    cases hs
    exact .nothing rfl rfl (hkeep rfl rfl)
  | call t => exact he.elim
  | inbound stream =>
    simp only [nodeStep] at hs
    split at hs
    · cases hs
    · cases hs
      refine .nothing rfl rfl ⟨htraffic, q, ns ++ [0], hq, ?_, ?_⟩
      · exact List.rel_append hall (.cons relayEventHandler_pays .nil)
      · simp only [List.sum_append, List.sum_cons, List.sum_nil, brings, Bool.toNat_false]
        omega
  | frame w res =>
    cases hs
    have hin (v : ℕ) : (p.state.pushFrame w res).inbox v =
        if v = w then p.state.inbox w ++ [res] else p.state.inbox v :=
      Function.update_apply ..
    refine .nothing rfl rfl ⟨fun v x hx => ?_, if confirms sid res then w :: q else q, ns,
      fun v => ?_, hall, ?_⟩
    · simp only [hin] at hx
      split at hx
      · rcases List.mem_append.mp hx with hx | hx
        · exact htraffic w x hx
        · obtain rfl := List.mem_singleton.mp hx
          exact he
      · exact htraffic v x hx
    · simp only [hin]
      have hqv := hq v
      cases hres : confirms sid res with
      | false =>
        by_cases hv : v = w
        · subst hv
          simpa [hres] using hqv
        · simpa [hv] using hqv
      | true =>
        by_cases hv : v = w
        · subst hv
          simp [hres, hqv]
        · simpa [hv, Ne.symm hv] using hqv
    · simp only [brings]
      cases confirms sid res
      · simpa using hsum
      · simp only [if_true, List.length_cons, Bool.toNat_true]
        omega

theorem step_spent (h : Funded sid price p n) (he : Admitted e)
    (hs : nodeStep node p e = some (p', os)) : Spent sid price p e p' n := by
  by_cases hi : ∃ i c, e = .thread i c
  · obtain ⟨i, c, rfl⟩ := hi
    exact turn_spent h hs
  · exact event_spent h he (fun i c heq => hi ⟨i, c, heq⟩) hs

/-! ## Runs -/

variable {es : List Event}

theorem Created.funded (h : Created node sid p) : Funded sid price p 0 := by
  refine ⟨fun w res hres => by simp [h.inbox] at hres, [], p.threads.map fun _ => 0, ?_, ?_, ?_⟩
  · intro w
    simp [h.inbox]
  · rw [List.forall₂_map_left_iff, List.forall₂_same]
    intro t ht
    obtain ⟨stream, current, rfl⟩ := h.handlers t ht
    exact relayEventHandler_pays
  · simp

/-- No more handshakes are started than successes arrive. -/
theorem starts_le (h₀ : Created node sid p) (hes : ∀ e ∈ es, Admitted e)
    (h : run (nodeStep node) p es = some (p', os)) :
    tally (starts sid) (nodeStep node) p es ≤ es.countP (brings sid) := by
  have hrun : (∀ e ∈ es, Admitted e) → run (nodeStep node) p es = some (p', os) ∧
      ∃ n, Funded sid 0 p' n ∧
        tally (starts sid) (nodeStep node) p es + n ≤ es.countP (brings sid) := by
    refine run_induction (P := fun es p' os => (∀ e ∈ es, Admitted e) →
      run (nodeStep node) p es = some (p', os) ∧ ∃ n, Funded sid 0 p' n ∧
        tally (starts sid) (nodeStep node) p es + n ≤ es.countP (brings sid)) ?_ ?_ h
    · exact fun _ => ⟨rfl, 0, h₀.funded, by simp [tally]⟩
    · intro es q os e q' o ih hstep hadm
      obtain ⟨hr, n, hf, hle⟩ := ih fun e' he' => hadm e' (List.mem_append_left _ he')
      refine ⟨run_concat_iff.mpr ⟨q, os, o, hr, hstep, rfl⟩, ?_⟩
      rw [tally_concat hr, List.countP_append, List.countP_singleton]
      cases step_spent hf (hadm e (by simp)) hstep with
      | nothing hs ht hf' =>
        refine ⟨_, hf', ?_⟩
        rw [hs]
        cases brings sid e <;> simp <;> omega
      | start m hn hb ht hf' =>
        refine ⟨_, hf', ?_⟩
        have hone := Bool.toNat_le (starts sid q e)
        simp only [hb]
        omega
      | establish m hn hb hs ht hf' =>
        refine ⟨_, hf', ?_⟩
        rw [hs, hb]
        simp
        omega
  obtain ⟨-, n, -, hle⟩ := hrun hes
  omega

/-- A circuit in transport mode is paid for, too. -/
theorem established_le (h₀ : Created node sid p) (hes : ∀ e ∈ es, Admitted e)
    (h : run (nodeStep node) p es = some (p', os)) :
    ∃ n, Funded sid 1 p' n ∧
      (transport sid p'.state).isSome.toNat + n ≤ es.countP (brings sid) := by
  revert hes
  refine run_induction (P := fun es p' _ => (∀ e ∈ es, Admitted e) → ∃ n, Funded sid 1 p' n ∧
    (transport sid p'.state).isSome.toNat + n ≤ es.countP (brings sid)) ?_ ?_ h
  · exact fun _ => ⟨0, h₀.funded, by simp [h₀.transport]⟩
  · intro es q _ e q' _ ih hstep hadm
    obtain ⟨n, hf, hle⟩ := ih fun e' he' => hadm e' (List.mem_append_left _ he')
    rw [List.countP_append, List.countP_singleton]
    cases step_spent hf (hadm e (by simp)) hstep with
    | nothing hs ht hf' =>
      refine ⟨_, hf', ?_⟩
      rw [ht]
      cases brings sid e <;> simp <;> omega
    | start m hn hb ht hf' =>
      refine ⟨_, hf', ?_⟩
      rw [ht]
      omega
    | establish m hn hb hs ht hf' =>
      refine ⟨m, hf', ?_⟩
      rw [ht, Bool.toNat_true]
      omega

/-- With a single success there is nothing left to replace the transport state. -/
theorem transport_kept {q : NodePool} {pre post : List Event} {os' : List Output} {state : ℕ}
    (h₀ : Created node sid p) (hes : ∀ e ∈ pre ++ post, Admitted e)
    (hone : (pre ++ post).countP (brings sid) ≤ 1)
    (hpre : run (nodeStep node) p pre = some (q, os))
    (hpost : run (nodeStep node) q post = some (p', os'))
    (ht : transport sid q.state = some state) : transport sid p'.state = some state := by
  obtain ⟨n, hf, hn⟩ := established_le h₀ (fun e he => hes e (List.mem_append_left _ he)) hpre
  rw [ht, Option.isSome_some, Bool.toNat_true] at hn
  have hrun := run_induction (P := fun es r _ => (∀ e ∈ es, Admitted e) →
    pre.countP (brings sid) + es.countP (brings sid) ≤ 1 →
      transport sid r.state = some state ∧ ∃ n, Funded sid 1 r n ∧
        1 + n ≤ pre.countP (brings sid) + es.countP (brings sid))
    (fun _ _ => ⟨ht, n, hf, hn⟩) ?_ hpost
  · rw [List.countP_append] at hone
    exact (hrun (fun e he => hes e (List.mem_append_right _ he)) hone).1
  · intro es r _ e r' _ ih hstep hadm hle
    rw [List.countP_append, List.countP_singleton] at hle ⊢
    obtain ⟨htr, n, hf, hn⟩ := ih (fun e' he' => hadm e' (List.mem_append_left _ he')) (by omega)
    cases step_spent hf (hadm e (by simp)) hstep with
    | nothing hs ht' hf' =>
      refine ⟨ht'.trans htr, _, hf', ?_⟩
      cases hb : brings sid e <;> simp <;> omega
    | start m hm hb ht' hf' => exact ⟨ht'.trans htr, _, hf', by omega⟩
    | establish m hm hb hs ht' hf' => omega

end Generic

/-- If at most one success for the session arrives, at most one handshake is started for it, and a
transport state its circuit has got is not replaced. -/
theorem single_handshake [Codec] [Crypto] (node : Node) {sid : String} {p p' : NodePool}
    {es : List Event} {os : List Output} (h₀ : Created node sid p) (hes : ∀ e ∈ es, Admitted e)
    (hone : es.countP (brings sid) ≤ 1) (h : run (nodeStep node) p es = some (p', os)) :
    tally (starts sid) (nodeStep node) p es ≤ 1 ∧
      ∀ pre post q os' state, es = pre ++ post → run (nodeStep node) p pre = some (q, os') →
        transport sid q.state = some state → transport sid p'.state = some state := by
  refine ⟨(starts_le h₀ hes h).trans hone, ?_⟩
  rintro pre post q os' state rfl hpre ht
  obtain ⟨q', o, o', hpre', hpost, -⟩ := run_append_iff.mp h
  obtain ⟨rfl, -⟩ := Prod.mk.inj (Option.some.inj (hpre.symm.trans hpre'))
  exact transport_kept h₀ hes hone hpre hpost ht

/-! ## A success that comes twice -/

namespace Sample

def caller : Node := ⟨(⟨.ed25519, List.replicate 32 7⟩ : Ideal.Keypair), none, none⟩

def stream : WrappedStream := ⟨⟨"entry"⟩, 0⟩

def session : Session := ⟨"session", ⟨some stream, none⟩, SessionRole.callerRole.toI32⟩

/-- A caller whose session and circuit have been made, with the handler of its stream. -/
def created : NodePool where
  state :=
    { sessionMap := fun sid => if sid = "session" then some session else none
      circuitMap := fun sid => if sid = "session" then some ⟨"session", stream, 0, none⟩ else none
      nextChannel := 1 }
  threads := [Task.body caller (.relayEventHandler stream (some "session"))]

def success : Event := .frame 0 (.ok (Codec.encode (newRelayCircuitSuccess "session")))

/-- One frame is read and handled, up to the next turn of the loop. -/
def turns : List Event := List.replicate 5 (.thread 0 .go)

end Sample

theorem created_sample : Created Sample.caller "session" Sample.created where
  handlers _ ht := ⟨Sample.stream, some "session", List.mem_singleton.mp ht⟩
  inbox _ := rfl
  transport := rfl

theorem admitted_sample {es : List Event}
    (h : ∀ e ∈ es, e = Sample.success ∨ e = .thread 0 .go) : ∀ e ∈ es, Admitted e := by
  intro e he
  rcases h e he with rfl | rfl
  · exact show isTraffic _ = true by decide +kernel
  · trivial

theorem single_handshake_once :
    ∃ p os, run (nodeStep Sample.caller) Sample.created (Sample.success :: Sample.turns) =
      some (p, os) ∧ tally (starts "session") (nodeStep Sample.caller) Sample.created
        (Sample.success :: Sample.turns) ≤ 1 := by
  obtain ⟨p, os, hr, -⟩ := exists_run (nodeStep Sample.caller) Sample.created
    (Sample.success :: Sample.turns) (fun _ => true) (by decide +kernel)
  refine ⟨p, os, hr, (single_handshake Sample.caller created_sample ?_ ?_ hr).1⟩
  · exact admitted_sample (by simp [Sample.turns])
  · decide +kernel

/-- A second success starts a second handshake. -/
theorem not_single_repeated :
    ∃ p os es, run (nodeStep Sample.caller) Sample.created es = some (p, os) ∧
      (∀ e ∈ es, Admitted e) ∧
      tally (starts "session") (nodeStep Sample.caller) Sample.created es = 2 := by
  obtain ⟨p, os, hr, -⟩ := exists_run (nodeStep Sample.caller) Sample.created
    (Sample.success :: Sample.success :: (Sample.turns ++ Sample.turns)) (fun _ => true)
    (by decide +kernel)
  refine ⟨p, os, _, hr, admitted_sample (by simp [Sample.turns]), ?_⟩
  decide +kernel

end WhiteNoise.SingleHandshake
