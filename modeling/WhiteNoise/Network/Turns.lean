import WhiteNoise.Network.System
import WhiteNoise.Process.Among

/-! # Turns of the tasks among others

What one request of a program does in a run among the other tasks, and what
the functions that open, join and close sessions do in such a run.
-/

namespace WhiteNoise

open Wire Process

variable [Codec] [Crypto]

/-- The record of a function of the code. -/
abbrev TurnRecord (α : Type) := Record Shared Task Output Act.Res α

/-- The acknowledgements among the outputs, with the peers they go to. -/
def acksOf (os : List Output) : List NodeAckRequest :=
  os.filterMap fun o =>
    match o with
    | .request (.ackRequest r) => some r
    | _ => none

omit [Codec] [Crypto] in
@[simp] theorem acksOf_append (os os' : List Output) : acksOf (os ++ os') = acksOf os ++ acksOf os' :=
  List.filterMap_append ..

/-- The entries of `circuit_task` stay; nothing removes one. -/
def TasksStay (s s' : Shared) : Prop :=
  ∀ sid b, s.circuitTask sid = some b → s'.circuitTask sid = some b

/-- A key stays in `circuit_task`, be it replaced. -/
def KeysStay (s s' : Shared) : Prop :=
  ∀ sid, (s.circuitTask sid).isSome → (s'.circuitTask sid).isSome

/-- What leaves the node when the request gets its answer. -/
def Act.outputs : (a : Act) → a.Res → List Output
  | .newRelayStream _, some w => [.opened w]
  | .newRelayStream _, none => []
  | .write w b, _ => [.write w b]
  | .close w, _ => [.close w]
  | .send r, _ => [.request r]
  | .publish b, _ => [.published b]
  | _, _ => []

omit [Codec] in
theorem Shared.reply_outputs {a : Act} {c : Choice} {s : Shared} {x : Reply Shared Task Output a.Res}
    (h : Shared.reply a c s = some x) : x.outputs = a.outputs x.answer := by
  unfold Shared.reply at h
  split at h
  all_goals first
    | (obtain ⟨_, _, -, rfl⟩ := Shared.dequeue_eq_some h
       rfl)
    | (cases h <;> rfl)
    | (split at h <;> cases h <;> rfl)

section

variable {node : Node} {α : Type} {rely : Shared → Shared → Prop}
  {proviso : Proviso Shared Choice Act.Res} {s : Shared} {r : TurnRecord α}

/-- A run of a function of the code among the other tasks of a node. -/
abbrev Turn (node : Node) (rely : Shared → Shared → Prop) (proviso : Proviso Shared Choice Act.Res)
    (p : Async α) (s : Shared) (r : TurnRecord α) : Prop :=
  (nodeSemantics node).Amid rely proviso p s r

theorem turn_send {q : NodeRequest} {k : Unit → Async α}
    (h : Turn node rely proviso (.act (.send q) k) s r) :
    ∃ s' r', rely s s' ∧ Turn node rely proviso (k ()) s' r' ∧
      r = r'.after ⟨.send q, ()⟩ [.request q] [] := by
  obtain ⟨s', c, x, r', hs, -, hx, hk, rfl⟩ := h
  cases hx
  exact ⟨s', r', hs, hk, rfl⟩

theorem turn_sendAck {peer : PeerId} {ack : Ack} {r : TurnRecord Unit}
    (h : Turn node rely proviso (Node.sendAck peer ack) s r) :
    r.outputs = [.request (.ackRequest ⟨peer, some ack⟩)] := by
  obtain ⟨s', r', -, hend, rfl⟩ := turn_send h
  obtain rfl : r' = _ := hend
  rfl

theorem turn_spawn {t : Task} {k : Unit → Async α}
    (h : Turn node rely proviso (.act (.spawn t) k) s r) :
    ∃ s' r', rely s s' ∧ Turn node rely proviso (k ()) s' r' ∧
      r = r'.after ⟨.spawn t, ()⟩ [] [t] := by
  obtain ⟨s', c, x, r', hs, -, hx, hk, rfl⟩ := h
  cases hx
  exact ⟨s', r', hs, hk, rfl⟩

theorem turn_write {w : WrappedStream} {b : Bytes} {k : Unit → Async α}
    (h : Turn node rely proviso (.act (.write w b) k) s r) :
    ∃ s' r', rely s s' ∧ Turn node rely proviso (k ()) s' r' ∧
      r = r'.after ⟨.write w b, ()⟩ [.write w b] [] := by
  obtain ⟨s', c, x, r', hs, -, hx, hk, rfl⟩ := h
  cases hx
  exact ⟨s', r', hs, hk, rfl⟩

theorem turn_close {w : WrappedStream} {k : Unit → Async α}
    (h : Turn node rely proviso (.act (.close w) k) s r) :
    ∃ s' r', rely s s' ∧ Turn node rely proviso (k ()) s' r' ∧
      r = r'.after ⟨.close w, ()⟩ [.close w] [] := by
  obtain ⟨s', c, x, r', hs, -, hx, hk, rfl⟩ := h
  cases hx
  exact ⟨s', r', hs, hk, rfl⟩

/-- The answer is drawn, and nothing else happens. -/
def Act.Draws (a : Act) : Prop :=
  ∀ c s x, Shared.reply a c s = some x → x.state = s ∧ x.outputs = [] ∧ x.spawned = []

theorem turn_draws {a : Act} (ha : a.Draws) {k : a.Res → Async α}
    (h : Turn node rely proviso (.act a k) s r) :
    ∃ s' y r', rely s s' ∧ Turn node rely proviso (k y) s' r' ∧ r = r'.after ⟨a, y⟩ [] [] := by
  obtain ⟨s', c, x, r', hs, -, hx, hk, rfl⟩ := h
  obtain ⟨hstate, houtputs, hspawned⟩ := ha c s' x hx
  rw [hstate] at hk
  exact ⟨s', x.answer, r', hs, hk, by rw [houtputs, hspawned]⟩

omit [Codec] in
theorem draws_randomPeerId : Act.randomPeerId.Draws := by
  rintro c s x hx
  cases c <;> cases hx
  exact ⟨rfl, rfl, rfl⟩

omit [Codec] in
theorem draws_randomUsize : Act.randomUsize.Draws := by
  rintro c s x hx
  cases c <;> cases hx
  exact ⟨rfl, rfl, rfl⟩

theorem turn_getMainNets {n : Int32} {k : Option (List NodeInfo) → Async α}
    (h : Turn node rely proviso (.act (.getMainNets n) k) s r) :
    ∃ s' l r', rely s s' ∧ Turn node rely proviso (k l) s' r' ∧
      r = r'.after ⟨.getMainNets n, l⟩ [] [] := by
  obtain ⟨s', c, x, r', hs, -, hx, hk, rfl⟩ := h
  cases c with
  | nodeInfos l =>
    cases hx
    exact ⟨s', l, r', hs, hk, rfl⟩
  | _ => cases hx

theorem turn_randomBelow {n : ℕ} {k : Bytes → Async α}
    (h : Turn node rely proviso (.act (.randomBelow n) k) s r) :
    ∃ s' b r', rely s s' ∧ Turn node rely proviso (k b) s' r' ∧
      r = r'.after ⟨.randomBelow n, b⟩ [] [] := by
  obtain ⟨s', c, x, r', hs, -, hx, hk, rfl⟩ := h
  cases c with
  | bytes b =>
    simp only [nodeSemantics, Shared.reply] at hx
    split at hx
    · cases hx
      exact ⟨s', b, r', hs, hk, rfl⟩
    · cases hx
  | _ => cases hx

theorem turn_now {k : ℕ → Async α} (h : Turn node rely proviso (.act .now k) s r) :
    ∃ s' n r', rely s s' ∧ Turn node rely proviso (k n) s' r' ∧ r = r'.after ⟨.now, n⟩ [] [] := by
  obtain ⟨s', c, x, r', hs, -, hx, hk, rfl⟩ := h
  cases c with
  | micros n =>
    cases hx
    exact ⟨s', n, r', hs, hk, rfl⟩
  | _ => cases hx

/-- A waiter is answered by an acknowledgement, or its sender was dropped. -/
theorem turn_awaitAck {receiver : ℕ} {k : Option Ack → Async α}
    (h : Turn node rely proviso (.act (.awaitAck receiver) k) s r) :
    ∃ s' o r', rely s s' ∧ Turn node rely proviso (k o) s' r' ∧
      r = r'.after ⟨.awaitAck receiver, o⟩ [] [] := by
  obtain ⟨s', c, x, r', hs, -, hx, hk, rfl⟩ := h
  simp only [nodeSemantics, Shared.reply] at hx
  split at hx
  · cases hx
  · next ack hack =>
    cases hx
    exact ⟨s', some ack, r', hs, hk, rfl⟩
  · cases hx
    exact ⟨s', none, r', hs, hk, rfl⟩

/-- A stream to the peer is opened, or it is not. -/
theorem turn_newRelayStream {peer : PeerId} {k : Option WrappedStream → Async α}
    (h : Turn node rely proviso (.act (.newRelayStream peer) k) s r) :
    ∃ s' r', rely s s' ∧
      ((∃ w, w.remotePeerId = peer ∧ w.streamId ∉ s'.streams ∧
        Turn node rely proviso (k (some w)) { s' with streams := w.streamId :: s'.streams } r' ∧
        r = r'.after ⟨.newRelayStream peer, some w⟩ [.opened w] []) ∨
      Turn node rely proviso (k none) s' r' ∧ r = r'.after ⟨.newRelayStream peer, none⟩ [] []) := by
  obtain ⟨s', c, x, r', hs, -, hx, hk, rfl⟩ := h
  cases c with
  | stream o =>
    cases o with
    | none =>
      cases hx
      exact ⟨s', r', hs, Or.inr ⟨hk, rfl⟩⟩
    | some w =>
      simp only [nodeSemantics, Shared.reply] at hx
      split at hx
      · next hw =>
        cases hx
        exact ⟨s', r', hs, Or.inl ⟨w, hw.1, hw.2, hk, rfl⟩⟩
      · cases hx
  | _ => cases hx

/-- A frame is padded and written. -/
theorem turn_writeRelayArc {w : WrappedStream} {relay : Relay} {k : String → Async α}
    (h : Turn node rely proviso (writeRelayArc w relay >>= k) s r) :
    ∃ s₁ s₂ confusion r', rely s s₁ ∧ rely s₁ s₂ ∧
      let key := fromBytesGetId (Codec.encode { relay with confusion := confusion })
      let frame := Codec.encode { relay with confusion := confusion, id := key }
      Turn node rely proviso (k key) s₂ r' ∧
      r = (r'.after ⟨.write w frame, ()⟩ [.write w frame] []).after
        ⟨.randomBelow (confusionBound relay), confusion⟩ [] [] := by
  simp only [writeRelayArc, confusionRelay, Async.write, Prog.call_bind, Prog.act_bind,
    Prog.pure_eq, Prog.ret_bind] at h
  obtain ⟨s₁, b, r₁, h₁, hwrite, rfl⟩ := turn_randomBelow h
  obtain ⟨s₂, r₂, h₂, hrun, rfl⟩ := turn_write hwrite
  exact ⟨s₁, s₂, b, r₂, h₁, h₂, hrun, rfl⟩

end

end WhiteNoise
