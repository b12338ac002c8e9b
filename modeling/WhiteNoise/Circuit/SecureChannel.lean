import WhiteNoise.Circuit.Carriage

/-! # Sending and reading at the ends of a path

An ideal Noise channel hands out what was put in, in order, in each direction
on its own. A client that sends on an established circuit encrypts the message
and puts the ciphertext on the path; a client that reads takes the next one
from its circuit, decrypts it and cuts the message out.
-/

namespace WhiteNoise

open Wire Process

variable [Codec] [Crypto]

/-! ## The channel -/

/-- The two transport states of a circuit as an ideal channel: `Linked t u q` says that what `t` has
written and `u` has not read yet is `q`, the ciphertexts with their texts. -/
structure IdealChannel
    (Linked : Crypto.Transport → Crypto.Transport → List (Bytes × Bytes) → Prop) : Prop where
  write : ∀ {t u q m}, Linked t u q → m.length ≤ 65519 → ∃ t' c,
    Crypto.transportWrite t m = some (t', c) ∧ 0 < c.length ∧ c.length ≤ 65535 ∧
      Linked t' u (q ++ [(c, m)])
  read : ∀ {t u c m q n}, Linked t u ((c, m) :: q) → m.length ≤ n → ∃ u',
    Crypto.transportRead u c n = some (u', m) ∧ Linked t u' q
  write_back : ∀ {t u q m u' c}, Linked t u q → Crypto.transportWrite u m = some (u', c) →
    Linked t u' q
  read_back : ∀ {t u q c n t' m}, Linked t u q → Crypto.transportRead t c n = some (t', m) →
    Linked t' u q

/-- A ciphertext behind its length, as it travels. -/
def packed (c : Bytes) : Bytes := putU16 c.length ++ c

namespace Place

/-- The place is the end of the path that frames in the direction come from and frames in the other
direction go to. -/
structure End (place : Place) (d : Direction) (conn : CircuitConn) (ref : ℕ) : Prop where
  circuit : place.circuit = some conn
  id : conn.id = place.sid
  transport : conn.transportState = some ref
  source : place.source d = none
  target : place.target d = some conn.outStream
  arrives : place.target d.flip = none

variable {place : Place} {d : Direction} {conn : CircuitConn} {ref : ℕ} {s : Shared} {c : Choice}

/-! ## Sending -/

/-- How far the sending of a message is: what is still to be encrypted, and what is encrypted and
not yet written. -/
inductive Sending (place : Place) (d : Direction) (conn : CircuitConn) :
    Async Unit → List Bytes → List Bytes → Prop
  | start (m : Bytes) : Sending place d conn (Node.sendMessage place.sid (sized m)) [m] []
  | encrypt (m : Bytes) : Sending place d conn (conn.write (sized m)) [m] []
  | carry {p : Async Unit} {held : List Bytes}
      (h : place.Conveys d (fun held _ => held = []) p held) : Sending place d conn p [] held

theorem Sending.of_ret {pending held : List Bytes} (hend : place.End d conn ref)
    (h : place.Sending d conn (.ret ()) pending held) : pending = [] ∧ held = [] := by
  generalize hp : (Prog.ret () : Async Unit) = p at h
  cases h with
  | start m => cases hp
  | encrypt m =>
    simp only [CircuitConn.write, hend.transport] at hp
    cases hp
  | carry h =>
    subst hp
    exact ⟨rfl, h⟩

/-- The message is encrypted under the lock of the transport state. -/
theorem operate_write (hend : place.End d conn ref) {t t' : Crypto.Transport}
    {payload cipher : Bytes} (ht : s.transports ref = some t)
    (hw : Crypto.transportWrite t payload = some (t', cipher)) :
    (nodeSemantics place.node).operate c s (conn.write payload) =
      some ⟨writePayloadArc conn.outStream cipher cipher.length conn.id,
        { s with transports := Function.update s.transports ref (some t') }, [], []⟩ := by
  simp [CircuitConn.write, hend.transport, writeTransport, Semantics.operate, ht, hw]

theorem conveys_writePayloadArc (hend : place.End d conn ref) {b : Bytes} (hb : 0 < b.length) :
    place.Conveys d (fun held _ => held = [])
      (writePayloadArc conn.outStream b b.length conn.id) [packed b] := by
  have hpayload : (payloadRelay b conn.id).payload place.sid = some (packed b) := by
    simp [payloadRelay, newRelay, Relay.payload, hend.id, packed]
  rw [writePayloadArc, if_neg (by omega)]
  exact Semantics.Carries.bind ((conveys_writeRelayArc hend.target hpayload).mono fun _ _ h => h)

variable {Linked : Crypto.Transport → Crypto.Transport → List (Bytes × Bytes) → Prop}
  {t u : Crypto.Transport} {q : List (Bytes × Bytes)}

/-- One operation of a sending client encrypts the message or moves what is encrypted on. -/
theorem Sending.operate (hch : IdealChannel Linked) (hend : place.End d conn ref)
    {p : Async Unit} {pending held : List Bytes} (h : place.Sending d conn p pending held)
    (hs : place.Settled s) (ht : s.transports ref = some t) (hl : Linked t u q)
    (hlen : ∀ m ∈ pending, (sized m).length ≤ 65519) {r : Reply Shared Task Output (Async Unit)}
    (hr : (nodeSemantics place.node).operate c s p = some r) :
    (∃ inn out held', held ++ inn = out ++ held' ∧
      place.Moves (some d) s r.state r.outputs r.spawned inn out ∧
      place.Sending d conn r.answer pending held') ∨
    ∃ m t' cipher, pending = [m] ∧ held = [] ∧ r.outputs = [] ∧ r.spawned = [] ∧
      r.state = { s with transports := Function.update s.transports ref (some t') } ∧
      Crypto.transportWrite t (sized m) = some (t', cipher) ∧ cipher.length ≤ 65535 ∧
      Linked t' u (q ++ [(cipher, sized m)]) ∧ place.Sending d conn r.answer [] [packed cipher] := by
  cases h with
  | start m =>
    refine Or.inl ⟨[], [], [], rfl, ?_⟩
    have hcircuit : s.circuitMap place.sid = some conn := hs.circuit.trans hend.circuit
    have heq : (nodeSemantics place.node).operate c s (Node.sendMessage place.sid (sized m)) =
        some ⟨conn.write (sized m), s, [], []⟩ := by
      simp [Node.sendMessage, Async.getCircuit, Semantics.operate, hcircuit, hend.transport]
    obtain rfl := Option.some.inj (heq.symm.trans hr)
    exact ⟨hs.moves_refl, .encrypt m⟩
  | encrypt m =>
    obtain ⟨t', cipher, hw, hpos, hmax, hl'⟩ := hch.write hl (hlen m List.mem_cons_self)
    obtain rfl := Option.some.inj ((operate_write hend ht hw).symm.trans hr)
    exact Or.inr ⟨m, t', cipher, rfl, rfl, rfl, rfl, rfl, hw, hmax, hl',
      .carry (conveys_writePayloadArc hend hpos)⟩
  | carry h =>
    obtain ⟨inn, out, held', heq, hmoves, hans⟩ := h.operate hs
      (fun hd => absurd hd (Option.some_ne_none d)) hr
    exact Or.inl ⟨inn, out, held', heq, hmoves, .carry hans⟩

/-- A sending client that cannot go on is done. -/
theorem Sending.stuck (hend : place.End d conn ref)
    {p : Async Unit} {pending held : List Bytes} (h : place.Sending d conn p pending held)
    (hr : ∀ c, (nodeSemantics place.node).operate c s p = none) : p = .ret () := by
  cases h with
  | start m => cases hr .go
  | encrypt m =>
    have hgo := hr .go
    simp [CircuitConn.write, hend.transport, writeTransport, Semantics.operate] at hgo
  | carry h =>
    have : Nonempty Choice := ⟨.go⟩
    obtain ⟨⟨⟩, rfl, -⟩ | ⟨a, k, rfl, hask, hreply⟩ := h.blocked
      (Option.some_ne_none d) hr
    · rfl
    · cases a with
      | read v =>
        have hv : place.source d = some v := (hask d rfl).1
        cases hend.source.symm.trans hv
      | randomBelow n =>
        have hpos : 0 < n := hask d rfl
        have hnone : Shared.reply (.randomBelow n) (.bytes []) s = none := hreply (.bytes [])
        simp [Shared.reply, hpos] at hnone
      | write v b => cases hreply .go
      | _ => exact (hask d rfl).elim

/-! ## Reading -/

/-- Decrypt the ciphertext into the buffer and cut the message out. -/
def decrypting (ref : ℕ) (cipher buf : Bytes) : Async Bytes := do
  let buf ← readTransport ref cipher buf
  Prog.unwrap (realMessage buf)

/-- How far the reading of a message is, into a buffer with room for each of the messages, with
what has been taken from the circuit. -/
inductive Reading (ms : List Bytes) (conn : CircuitConn) (ref : ℕ) :
    Async Bytes → List Bytes → Prop
  | idle (m : Bytes) : Reading ms conn ref (.ret m) []
  | wait {buf : Bytes} (hbuf : ∀ m ∈ ms, (sized m).length ≤ buf.length) :
      Reading ms conn ref (conn.read buf) []
  | decrypt {buf : Bytes} (cipher : Bytes) (hbuf : ∀ m ∈ ms, (sized m).length ≤ buf.length) :
      Reading ms conn ref (decrypting ref cipher buf) [packed cipher]

/-- The next ciphertext is taken from the circuit. -/
theorem operate_read (hend : place.End d conn ref) {buf : Bytes}
    {r : Reply Shared Task Output (Async Bytes)}
    (hr : (nodeSemantics place.node).operate c s (conn.read buf) = some r) :
    ∃ b bs, s.channels conn.inChannel = b :: bs ∧ r.outputs = [] ∧ r.spawned = [] ∧
      r.state = { s with channels := Function.update s.channels conn.inChannel bs } ∧
      ∀ cipher, b = packed cipher → cipher.length ≤ 65535 →
        r.answer = decrypting ref cipher buf := by
  simp only [CircuitConn.read, hend.transport, Prog.call_bind, Semantics.operate] at hr
  split at hr
  · cases hr
  · next x hx =>
    obtain ⟨b, bs, hq, rfl⟩ := Shared.dequeue_eq_some hx
    cases hr
    refine ⟨b, bs, hq, rfl, rfl, rfl, ?_⟩
    rintro cipher rfl hmax
    simp only [packed, payloadOf_putU16 (Nat.lt_succ_of_le hmax), Prog.unwrap_some, Prog.ret_bind]
    rfl

/-- The ciphertext is decrypted under the lock of the transport state. -/
theorem operate_decrypting {u' : Crypto.Transport} {cipher buf m : Bytes}
    (hu : s.transports ref = some u) (hm : m.length < 2 ^ 32)
    (hread : Crypto.transportRead u cipher buf.length = some (u', sized m)) :
    (nodeSemantics place.node).operate c s (decrypting ref cipher buf) =
      some ⟨.ret m, { s with transports := Function.update s.transports ref (some u') }, [], []⟩ := by
  have hcut : realMessage (sized m ++ buf.drop (sized m).length) = some m := realMessage_sized hm _
  rw [length_sized] at hcut
  simp [decrypting, readTransport, Semantics.operate, hu, hread, hcut]

/-- A client that reads and cannot go on waits for its circuit. -/
theorem Reading.stuck (hend : place.End d conn ref) {ms : List Bytes} {p : Async Bytes}
    {taken : List Bytes} (h : Reading ms conn ref p taken) (hp : ∀ m, p ≠ .ret m)
    (hr : ∀ c, (nodeSemantics place.node).operate c s p = none) :
    taken = [] ∧ s.channels conn.inChannel = [] := by
  cases h with
  | idle m => exact absurd rfl (hp m)
  | wait hbuf =>
    refine ⟨rfl, ?_⟩
    have hgo := hr .go
    simp only [CircuitConn.read, hend.transport, Prog.call_bind, Semantics.operate] at hgo
    cases hq : s.channels conn.inChannel with
    | nil => rfl
    | cons b bs => simp [nodeSemantics, Shared.reply, Shared.dequeue, hq] at hgo
  | decrypt cipher hbuf =>
    have hgo := hr .go
    simp [decrypting, readTransport, Semantics.operate] at hgo

end Place

end WhiteNoise
