import WhiteNoise.Network.Ideal
import WhiteNoise.Network.System

/-! # The handshake of a circuit

Both roles check that the identity key of the remote signs its static Noise
key and only log the result. A circuit is marked established whenever the
payload can be checked at all, so it is authenticated exactly when the check
did not come out negative.
-/

namespace WhiteNoise.Handshake

open Wire Process

section Run

variable [Codec] [Crypto]

/-- The circuit of the session is in transport mode. -/
def Established (s : Shared) (sid : String) : Prop :=
  ∃ conn, s.circuitMap sid = some conn ∧ conn.transportState.isSome

/-- What the node hears in the exchange: the Noise steps up to the payload of the remote. A
handshake message is written only if it has bytes. -/
def hear (node : Node) (seed rand : Bytes) :
    Bool → List Bytes → Option (Crypto.NoiseKeys × Crypto.Handshake × Bytes)
  | true, data :: _ => do
    let keys ← Crypto.intoAuthentic seed node.keypair
    let noise ← Crypto.buildInitiator keys
    let (noise, buf) ← Crypto.writeMessage rand noise []
    if buf = [] then none else
    let (noise, payload) ← handleReadShake data noise
    some (keys, noise, payload)
  | false, data₁ :: data₂ :: _ => do
    let keys ← Crypto.intoAuthentic seed node.keypair
    let _ ← Crypto.identitySig keys
    let noise ← Crypto.buildResponder keys
    let (noise, _) ← handleReadShake data₁ noise
    let own ← generateHandshakePayload keys
    let (noise, buf) ← Crypto.writeMessage rand noise own
    if buf = [] then none else
    let (noise, payload) ← handleReadShake data₂ noise
    some (keys, noise, payload)
  | _, _ => none

/-- The Noise steps after the payload of the remote was read. -/
def Completes (keys : Crypto.NoiseKeys) (noise : Crypto.Handshake) : Bool → Prop
  | true => ∃ own, generateHandshakePayload keys = some own ∧
      ∀ rand, ∃ noise' buf transport, Crypto.writeMessage rand noise own = some (noise', buf) ∧
        buf ≠ [] ∧ Crypto.intoTransportMode noise' = some transport
  | false => ∃ transport, Crypto.intoTransportMode noise = some transport

/-- An exchange of three messages in which the Noise steps succeed. The data is what the remote
sends, the payload its handshake payload and `pubkey` its static key. -/
structure Exchange (node : Node) (initiate : Bool) (seed rand : Bytes) (data : List Bytes) where
  keys : Crypto.NoiseKeys
  noise : Crypto.Handshake
  payload : Bytes
  pubkey : Bytes
  heard : hear node seed rand initiate data = some (keys, noise, payload)
  static : Crypto.getRemoteStatic noise = some pubkey
  completes : Completes keys noise initiate

/-- The task draws its seed first and the randomness of its first message next; as responder it
reads a message in between. -/
def Draws (seed rand : Bytes) : Bool → List (ℕ × Choice) → Prop
  | true, sched => ∃ rest, sched = (0, .bytes seed) :: (0, .bytes rand) :: rest
  | false, sched => ∃ c rest, sched = (0, .bytes seed) :: c :: (0, .bytes rand) :: rest

variable {node : Node} {s : Shared} {p : NodePool} {sched : List (ℕ × Choice)}
  {outs : List Output}

theorem run_atomic {f : Shared → Shared} {k : Shared → Thread}
    (h : run (nodeSemantics node).turn ⟨s, [.atomic f k]⟩ sched = some (p, outs))
    (hp : p.threads.all Prog.isEnded) :
    ∃ sched' outs', run (nodeSemantics node).turn ⟨f s, [k s]⟩ sched' = some (p, outs') := by
  obtain ⟨c, sched', r, outs', -, hr, hrun⟩ := Semantics.run_alone h hp rfl (by
    intro c r hr
    cases hr
    rfl)
  cases hr
  exact ⟨sched', outs', hrun⟩

theorem run_randomBytes {k : Bytes → Thread}
    (h : run (nodeSemantics node).turn ⟨s, [.act .randomBytes k]⟩ sched = some (p, outs))
    (hp : p.threads.all Prog.isEnded) :
    ∃ b sched' outs', sched = (0, .bytes b) :: sched' ∧
      run (nodeSemantics node).turn ⟨s, [k b]⟩ sched' = some (p, outs') := by
  obtain ⟨c, sched', r, outs', rfl, hr, hrun⟩ := Semantics.run_alone h hp rfl (by
    intro c r hr
    cases c <;> cases hr
    rfl)
  cases c with
  | bytes b =>
    cases hr
    exact ⟨b, sched', outs', rfl, hrun⟩
  | _ => cases hr

theorem run_randomBelow {n : ℕ} {k : Bytes → Thread}
    (h : run (nodeSemantics node).turn ⟨s, [.act (.randomBelow n) k]⟩ sched = some (p, outs))
    (hp : p.threads.all Prog.isEnded) :
    ∃ b sched' outs', run (nodeSemantics node).turn ⟨s, [k b]⟩ sched' = some (p, outs') := by
  obtain ⟨c, sched', r, outs', -, ha, hrun⟩ := Semantics.run_alone h hp rfl (by
    intro c r h
    obtain ⟨b, rfl⟩ := advance_randomBelow h
    rfl)
  obtain ⟨b, rfl⟩ := advance_randomBelow ha
  exact ⟨b, sched', outs', hrun⟩

theorem run_write {w : WrappedStream} {b : Bytes} {k : Unit → Thread}
    (h : run (nodeSemantics node).turn ⟨s, [.act (.write w b) k]⟩ sched = some (p, outs))
    (hp : p.threads.all Prog.isEnded) :
    ∃ sched' outs', run (nodeSemantics node).turn ⟨s, [k ()]⟩ sched' = some (p, outs') := by
  obtain ⟨c, sched', r, outs', -, hr, hrun⟩ := Semantics.run_alone h hp rfl (by
    intro c r hr
    cases hr
    rfl)
  cases hr
  exact ⟨sched', outs', hrun⟩

theorem run_nextData {i : ℕ} {k : Bytes → Thread}
    (h : run (nodeSemantics node).turn ⟨s, [.act (.nextData i) k]⟩ sched = some (p, outs))
    (hp : p.threads.all Prog.isEnded) :
    ∃ c data rest sched' outs', sched = (0, c) :: sched' ∧ s.channels i = data :: rest ∧
      run (nodeSemantics node).turn
        ⟨{ s with channels := Function.update s.channels i rest }, [k data]⟩ sched' =
          some (p, outs') := by
  have hr (c : Choice) (r) (hr : (nodeSemantics node).advance c s (.act (.nextData i) k) =
      some r) : ∃ data rest, s.channels i = data :: rest ∧
        r = ⟨k data, { s with channels := Function.update s.channels i rest }, [], []⟩ := by
    simp only [Semantics.advance, nodeSemantics, Shared.reply, Shared.dequeue] at hr
    cases hq : s.channels i with
    | nil => simp [hq] at hr
    | cons data rest =>
      simp only [hq, Option.some.injEq] at hr
      exact ⟨data, rest, rfl, hr.symm⟩
  obtain ⟨c, sched', r, outs', rfl, ha, hrun⟩ := Semantics.run_alone h hp rfl (by
    intro c r h
    obtain ⟨_, _, -, rfl⟩ := hr c r h
    rfl)
  obtain ⟨data, rest, hq, rfl⟩ := hr c r ha
  exact ⟨c, data, rest, sched', outs', rfl, hq, hrun⟩

/-! ## The steps of the exchange -/

variable {circuitConn : CircuitConn} {sid : String} {noise : Crypto.Handshake}

theorem run_writeShake {payload : Bytes} {k : Crypto.Handshake → Thread}
    (h : run (nodeSemantics node).turn ⟨s, [writeShake circuitConn sid noise payload >>= k]⟩ sched =
      some (p, outs)) (hp : p.threads.all Prog.isEnded) :
    ∃ rand sched', sched = (0, .bytes rand) :: sched' ∧ ∀ noise' buf,
      Crypto.writeMessage rand noise payload = some (noise', buf) → buf ≠ [] →
        ∃ sched' outs', run (nodeSemantics node).turn ⟨s, [k noise']⟩ sched' = some (p, outs') := by
  obtain ⟨rand, sched', outs', hs, h⟩ := run_randomBytes h hp
  refine ⟨rand, sched', hs, ?_⟩
  intro noise' buf hw hb
  have hlen : buf.length ≠ 0 := by simpa using hb
  have hif : ¬ (buf.length ≠ buf.length ∨ buf.length = 0) := by simp [hlen]
  simp only [hw, Prog.bind_eq, Prog.ret_bind, Prog.unwrap_some, writeHandshakePayloadArc,
    writePayloadArc, if_neg hif, bind_assoc] at h
  obtain ⟨confusion, sched₁, outs₁, h⟩ := run_randomBelow h hp
  obtain ⟨sched₂, outs₂, h⟩ := run_write h hp
  exact ⟨sched₂, outs₂, h⟩

theorem run_readShake {k : Crypto.Handshake × Bytes → Thread}
    (h : run (nodeSemantics node).turn ⟨s, [readShake circuitConn noise >>= k]⟩ sched =
      some (p, outs)) (hp : p.threads.all Prog.isEnded) :
    ∃ c data rest sched', sched = (0, c) :: sched' ∧
      s.channels circuitConn.inChannel = data :: rest ∧
      ∀ r, handleReadShake data noise = some r → ∃ outs', run (nodeSemantics node).turn
        ⟨{ s with channels := Function.update s.channels circuitConn.inChannel rest }, [k r]⟩
          sched' = some (p, outs') := by
  obtain ⟨c, data, rest, sched', outs', hs, hq, h⟩ := run_nextData h hp
  refine ⟨c, data, rest, sched', hs, hq, ?_⟩
  intro r hr
  simp only [hr, Prog.bind_eq, Prog.ret_bind, Prog.unwrap_some] at h
  exact ⟨outs', h⟩

theorem run_establish {transport : Crypto.Transport}
    (ht : Crypto.intoTransportMode noise = some transport)
    (h : run (nodeSemantics node).turn
      ⟨s, [establish circuitConn sid noise >>= fun _ => .ret none]⟩ sched = some (p, outs))
    (hp : p.threads.all Prog.isEnded) : Established p.state sid := by
  simp only [establish, ht, Prog.unwrap_some, Prog.ret_bind, Async.newTransport, Prog.update_bind,
    Async.insertCircuit, Prog.atomic_bind] at h
  obtain ⟨sched₁, outs₁, h⟩ := run_atomic h hp
  obtain ⟨sched₂, outs₂, h⟩ := run_atomic h hp
  rw [Semantics.run_alone_ended h rfl]
  exact ⟨_, Function.update_self .., rfl⟩

/-- The handshake as a thread of its own. -/
def pool (node : Node) (s : Shared) (circuitConn : CircuitConn) (initiate : Bool) (sid : String) :
    NodePool :=
  ⟨s, [Task.body node (.processHandshake circuitConn initiate sid)]⟩

/-- What is left once the payload is read. -/
def afterPayload (circuitConn : CircuitConn) (sid : String) (keys : Crypto.NoiseKeys)
    (noise : Crypto.Handshake) (payload : Bytes) : Bool → Thread
  | true => do
    let pubkey ← Prog.unwrap (Crypto.getRemoteStatic noise)
    let _verifySuccess ← Prog.unwrap (handleRemoteHandshakePayload payload pubkey)
    let own ← Prog.unwrap (generateHandshakePayload keys)
    let noise ← writeShake circuitConn sid noise own
    establish circuitConn sid noise
    return none
  | false => do
    let pubkey ← Prog.unwrap (Crypto.getRemoteStatic noise)
    let _verifySuccess ← Prog.unwrap (handleRemoteHandshakePayload payload pubkey)
    establish circuitConn sid noise
    return none

variable {initiate : Bool} {seed rand : Bytes}

theorem hear_true {data : List Bytes} {keys : Crypto.NoiseKeys} {payload : Bytes}
    (h : hear node seed rand true data = some (keys, noise, payload)) :
    ∃ d ds n₀ n₁ buf, data = d :: ds ∧ Crypto.intoAuthentic seed node.keypair = some keys ∧
      Crypto.buildInitiator keys = some n₀ ∧ Crypto.writeMessage rand n₀ [] = some (n₁, buf) ∧
      buf ≠ [] ∧ handleReadShake d n₁ = some (noise, payload) := by
  cases data with
  | nil => cases h
  | cons d ds =>
    simp only [hear, Option.bind_eq_bind, Option.bind_eq_some_iff, Option.ite_none_left_eq_some,
      Prod.exists, Option.some.injEq, Prod.mk.injEq] at h
    obtain ⟨_, hk, n₀, hn₀, n₁, buf, hw, hb, _, _, hr, rfl, rfl, rfl⟩ := h
    exact ⟨d, ds, n₀, n₁, buf, rfl, hk, hn₀, hw, hb, hr⟩

theorem hear_false {data : List Bytes} {keys : Crypto.NoiseKeys} {payload : Bytes}
    (h : hear node seed rand false data = some (keys, noise, payload)) :
    ∃ d₁ d₂ ds sig n₀ n₁ b own n₂ buf, data = d₁ :: d₂ :: ds ∧
      Crypto.intoAuthentic seed node.keypair = some keys ∧ Crypto.identitySig keys = some sig ∧
      Crypto.buildResponder keys = some n₀ ∧ handleReadShake d₁ n₀ = some (n₁, b) ∧
      generateHandshakePayload keys = some own ∧
      Crypto.writeMessage rand n₁ own = some (n₂, buf) ∧ buf ≠ [] ∧
      handleReadShake d₂ n₂ = some (noise, payload) := by
  match data, h with
  | d₁ :: d₂ :: ds, h =>
    simp only [hear, Option.bind_eq_bind, Option.bind_eq_some_iff, Option.ite_none_left_eq_some,
      Prod.exists, Option.some.injEq, Prod.mk.injEq] at h
    obtain ⟨_, hk, sig, hs, n₀, hn₀, n₁, b, hr, own, ho, n₂, buf, hw, hb, _, _, hr', rfl, rfl,
      rfl⟩ := h
    exact ⟨d₁, d₂, ds, sig, n₀, n₁, b, own, n₂, buf, rfl, hk, hs, hn₀, hr, ho, hw, hb, hr'⟩

/-- The task gets as far as the payload of the remote, with the circuit as it was. -/
theorem run_hear (E : Exchange node initiate seed rand (s.channels circuitConn.inChannel))
    (hd : Draws seed rand initiate sched)
    (h : run (nodeSemantics node).turn (pool node s circuitConn initiate sid) sched =
      some (p, outs)) (hp : p.threads.all Prog.isEnded) :
    ∃ s' sched' outs', s'.circuitMap = s.circuitMap ∧ run (nodeSemantics node).turn
      ⟨s', [afterPayload circuitConn sid E.keys E.noise E.payload initiate]⟩ sched' =
        some (p, outs') := by
  obtain ⟨keys, noise, payload, pubkey, heard, static, completes⟩ := E
  cases initiate with
  | true =>
    obtain ⟨d, ds, n₀, n₁, buf, hq, hk, hn₀, hw, hb, hr⟩ := hear_true heard
    obtain ⟨rest, rfl⟩ := hd
    obtain ⟨_, sched₁, outs₁, hs, h⟩ := run_randomBytes h hp
    cases hs
    simp only [hk, hn₀, Prog.bind_eq, Prog.ret_bind, Prog.unwrap_some, if_pos, bind_assoc] at h
    obtain ⟨_, sched₂, hs, hnext⟩ := run_writeShake h hp
    cases hs
    obtain ⟨sched₃, outs₃, h⟩ := hnext n₁ buf hw hb
    obtain ⟨c, d', ds', sched₄, hs, hq', hnext⟩ := run_readShake h hp
    rw [hq] at hq'
    cases hq'
    obtain ⟨outs₄, h⟩ := hnext _ hr
    refine ⟨_, sched₄, outs₄, ?_, h⟩
    rfl
  | false =>
    obtain ⟨d₁, d₂, ds, sig, n₀, n₁, b, own, n₂, buf, hq, hk, hsig, hn₀, hr, ho, hw, hb, hr'⟩ :=
      hear_false heard
    obtain ⟨c, rest, rfl⟩ := hd
    obtain ⟨_, sched₁, outs₁, hs, h⟩ := run_randomBytes h hp
    cases hs
    simp only [hk, hn₀, hsig, Prog.bind_eq, Prog.ret_bind, Prog.unwrap_some, Bool.false_eq_true,
      if_false, Option.map_some, bind_assoc] at h
    obtain ⟨_, d, ds', sched₂, hs, hq', hnext⟩ := run_readShake h hp
    cases hs
    rw [hq] at hq'
    cases hq'
    obtain ⟨outs₂, h⟩ := hnext _ hr
    simp only [ho, Prog.ret_bind, Prog.unwrap_some] at h
    obtain ⟨_, sched₃, hs, hnext⟩ := run_writeShake h hp
    cases hs
    obtain ⟨sched₄, outs₄, h⟩ := hnext n₂ buf hw hb
    obtain ⟨_, d, ds', sched₅, hs, hq', hnext⟩ := run_readShake h hp
    simp only [Function.update_self] at hq'
    cases hq'
    obtain ⟨outs₅, h⟩ := hnext _ hr'
    refine ⟨_, sched₅, outs₅, ?_, h⟩
    rfl

/-- The circuit is marked established exactly when the payload can be checked. -/
theorem established_iff (E : Exchange node initiate seed rand (s.channels circuitConn.inChannel))
    (hc : ¬ Established s sid) (hd : Draws seed rand initiate sched)
    (h : run (nodeSemantics node).turn (pool node s circuitConn initiate sid) sched =
      some (p, outs)) (hp : p.threads.all Prog.isEnded) :
    Established p.state sid ↔ handleRemoteHandshakePayload E.payload E.pubkey ≠ none := by
  obtain ⟨s', sched', outs', hs', h⟩ := run_hear E hd h hp
  cases hv : handleRemoteHandshakePayload E.payload E.pubkey with
  | none =>
    have hfail : p = ⟨s', [.fail]⟩ := by
      cases initiate <;>
      · simp only [afterPayload, E.static, hv, Prog.unwrap_some, Prog.unwrap_none, Prog.ret_bind,
          Prog.fail_bind] at h
        exact Semantics.run_alone_ended h rfl
    refine iff_of_false ?_ (fun hne => hne rfl)
    rw [hfail, Established, hs']
    exact hc
  | some v =>
    refine iff_of_true ?_ (by simp)
    cases initiate with
    | true =>
      obtain ⟨own, ho, hw⟩ := E.completes
      simp only [afterPayload, E.static, hv, ho, Prog.unwrap_some, Prog.ret_bind] at h
      obtain ⟨rand', sched₁, -, hnext⟩ := run_writeShake h hp
      obtain ⟨noise', buf, transport, hw, hb, ht⟩ := hw rand'
      obtain ⟨sched₂, outs₂, h⟩ := hnext noise' buf hw hb
      exact run_establish ht h hp
    | false =>
      obtain ⟨transport, ht⟩ := E.completes
      simp only [afterPayload, E.static, hv, Prog.unwrap_some, Prog.ret_bind] at h
      exact run_establish ht h hp

/-- An established circuit is authenticated exactly when the payload of the remote cannot be
checked or its signature verifies. -/
theorem authenticated_iff
    (E : Exchange node initiate seed rand (s.channels circuitConn.inChannel))
    (hc : ¬ Established s sid) (hd : Draws seed rand initiate sched)
    (h : run (nodeSemantics node).turn (pool node s circuitConn initiate sid) sched =
      some (p, outs)) (hp : p.threads.all Prog.isEnded) :
    (Established p.state sid → handleRemoteHandshakePayload E.payload E.pubkey = some true) ↔
      handleRemoteHandshakePayload E.payload E.pubkey ≠ some false := by
  rw [established_iff E hc hd h hp]
  cases handleRemoteHandshakePayload E.payload E.pubkey with
  | none => simp
  | some v => cases v <;> simp

end Run

/-! ## A caller and what it hears -/

namespace Sample

def keypair : Ideal.Keypair := ⟨.ed25519, List.replicate 32 7⟩

def caller : Node := ⟨keypair, none, none⟩

def circuitConn : CircuitConn := ⟨"session", ⟨⟨"entry"⟩, 0⟩, 0, none⟩

/-- The identity the remote claims, and its static Noise key. -/
def answer : Ideal.Keypair := ⟨.ed25519, List.replicate 32 9⟩

def static : Bytes := [5, 5]

/-- The handshake payload of the remote with a signature. -/
def payload (sig : Bytes) : Bytes :=
  Codec.encode ({ identityKey := answer.protobuf, identitySig := sig, data := [] } :
    NoiseHandshakePayload)

/-- The second message, behind its length. -/
def data (sig : Bytes) : Bytes :=
  let msg := 2 :: static ++ payload sig
  putU16 msg.length ++ msg

def shared (sig : Bytes) : Shared where
  circuitMap sid := if sid = "session" then some circuitConn else none
  channels i := if i = 0 then [data sig] else []

def genuine : Bytes := Ideal.sign answer (noisePrefix ++ static)

def forged : Bytes := [1]

def sched : List (ℕ × Choice) :=
  [(0, .bytes [3]), (0, .bytes []), (0, .bytes []), (0, .go), (0, .go), (0, .bytes []),
    (0, .bytes []), (0, .go), (0, .go), (0, .go)]

theorem draws : Draws [3] [] true sched := ⟨_, rfl⟩

theorem not_established (sig : Bytes) : ¬ Established (shared sig) "session" := by
  rintro ⟨conn, hc, ht⟩
  cases hc
  cases ht

def Heard (sig : Bytes) : Prop :=
  hear caller [3] [] true [data sig] =
    some (⟨[3], keypair⟩, ⟨true, ⟨[3], keypair⟩, some static, 2⟩, payload sig)

instance (sig : Bytes) : Decidable (Heard sig) :=
  (inferInstance : DecidableEq (Option (Ideal.NoiseKeys × Ideal.Handshake × Bytes))) _ _

theorem heard_genuine : Heard genuine := by decide +kernel

theorem heard_forged : Heard forged := by decide +kernel

def exchange (sig : Bytes) (h : Heard sig) :
    Exchange caller true [3] [] ((shared sig).channels circuitConn.inChannel) where
  keys := ⟨[3], keypair⟩
  noise := ⟨true, ⟨[3], keypair⟩, some static, 2⟩
  payload := payload sig
  pubkey := static
  heard := h
  static := rfl
  completes := ⟨_, rfl, fun _ => ⟨_, _, _, rfl, by decide, rfl⟩⟩

end Sample

theorem authenticated_genuine :
    ∃ (E : Exchange Sample.caller true [3] []
        ((Sample.shared Sample.genuine).channels Sample.circuitConn.inChannel)) (p : NodePool)
        (outs : List Output),
      run (nodeSemantics Sample.caller).turn
        (pool Sample.caller (Sample.shared Sample.genuine) Sample.circuitConn true "session")
        Sample.sched = some (p, outs) ∧ p.threads.all Prog.isEnded ∧
      (Established p.state "session" →
        handleRemoteHandshakePayload E.payload E.pubkey = some true) := by
  obtain ⟨p, outs, hr, hp⟩ := exists_run (nodeSemantics Sample.caller).turn
    (pool Sample.caller (Sample.shared Sample.genuine) Sample.circuitConn true "session")
    Sample.sched (fun r => r.1.threads.all Prog.isEnded) (by decide +kernel)
  exact ⟨Sample.exchange _ Sample.heard_genuine, p, outs, hr, hp,
    (authenticated_iff _ (Sample.not_established _) Sample.draws hr hp).mpr (by decide +kernel)⟩

/-- With a forged signature the circuit is established all the same. -/
theorem established_forged :
    ∃ (E : Exchange Sample.caller true [3] []
        ((Sample.shared Sample.forged).channels Sample.circuitConn.inChannel)) (p : NodePool)
        (outs : List Output),
      run (nodeSemantics Sample.caller).turn
        (pool Sample.caller (Sample.shared Sample.forged) Sample.circuitConn true "session")
        Sample.sched = some (p, outs) ∧ p.threads.all Prog.isEnded ∧
      Established p.state "session" ∧
      handleRemoteHandshakePayload E.payload E.pubkey = some false := by
  obtain ⟨p, outs, hr, hp⟩ := exists_run (nodeSemantics Sample.caller).turn
    (pool Sample.caller (Sample.shared Sample.forged) Sample.circuitConn true "session")
    Sample.sched (fun r => r.1.threads.all Prog.isEnded) (by decide +kernel)
  refine ⟨Sample.exchange _ Sample.heard_forged, p, outs, hr, hp, ?_, by decide +kernel⟩
  exact (established_iff (Sample.exchange _ Sample.heard_forged) (Sample.not_established _)
    Sample.draws hr hp).mpr (by decide +kernel)

end WhiteNoise.Handshake
