import WhiteNoise.Network.Turns
import WhiteNoise.Survival.Requests

/-! # Functions that acknowledge nothing

What opens, joins and closes sessions sends no acknowledgement of its own, and
it does not touch the keys of the dialed clients.
-/

namespace WhiteNoise

open Wire Process RequestLoops

variable [Codec] [Crypto]

variable {α β : Type} {p : Async α} {g : α → Async β}

/-- The program sends no acknowledgement, and it leaves `circuit_task` alone. -/
abbrev Silent (p : Async α) : Prop :=
  p.Within (fun f => ∀ s, (f s).circuitTask = s.circuitTask)
    (fun a => ∀ q, a ≠ .send (.ackRequest q)) fun _ => True

omit [Codec] in
theorem Silent.seq (hp : Silent p) (hg : ∀ a, Silent (g a)) : Silent (p >>= g) :=
  (hp.mono (fun _ h => h) (fun _ h => h) fun a _ => hg a).bind

omit [Codec] in
theorem Silent.ite {c : Prop} [Decidable c] {q : Async α} (hp : Silent p) (hq : Silent q) :
    Silent (if c then p else q) := by
  split
  · exact hp
  · exact hq

omit [Codec] in
theorem silent_unwrap (o : Option α) : Silent (Prog.unwrap o : Async α) := by
  cases o with
  | none => trivial
  | some a => trivial

omit [Codec] in
theorem silent_read (f : Shared → α) : Silent (Prog.read f) := ⟨fun _ => rfl, fun _ => trivial⟩

omit [Codec] in
theorem silent_write {f : Shared → Shared} (hf : ∀ s, (f s).circuitTask = s.circuitTask) :
    Silent (Prog.write f) := ⟨hf, fun _ => trivial⟩

omit [Codec] in
theorem silent_update {f : Shared → Shared} (hf : ∀ s, (f s).circuitTask = s.circuitTask)
    (h : Shared → α) : Silent (Prog.update f h) :=
  ⟨hf, fun _ => trivial⟩

omit [Codec] in
theorem silent_call {a : Act} (h : ∀ q, a ≠ .send (.ackRequest q)) : Silent (Prog.call a) :=
  ⟨h, fun _ => trivial⟩

variable {node : Node} {w : WrappedStream} {relay : Relay} {sid : String} {peer : PeerId}

omit [Codec] in
theorem silent_awaitAck {receiver : ℕ} : Silent (Async.awaitAck receiver) := by
  apply Silent.seq (silent_call _)
  · rintro o
    exact silent_unwrap o
  · rintro q h
    cases h

theorem silent_writeRelayArc : Silent (writeRelayArc w relay) :=
  ⟨by simp, fun _ => ⟨by simp, fun _ => trivial⟩⟩

omit [Codec] in
theorem silent_sendRelayTwoway {session : Session} : Silent (sendRelayTwoway session relay) := by
  have hspawn (t : Task) : Silent (Async.spawn t) := silent_call (by simp)
  unfold sendRelayTwoway
  cases session.pairStream.earlyStream <;> cases session.pairStream.laterStream
  · trivial
  · exact hspawn _
  · exact (hspawn _).seq fun _ => trivial
  · exact (hspawn _).seq fun _ => hspawn _

omit [Codec] in
theorem silent_handleCloseSession : Silent (Node.handleCloseSession sid) := by
  have htail : Silent (do
      Async.removeCircuit sid
      Async.removeProbe sid) := (silent_write fun _ => rfl).seq fun _ => silent_write fun _ => rfl
  obtain ⟨k, hk, hrest⟩ :=
    Node.handleCloseSession_rest sid htail fun w p hp => ⟨by simp, fun _ => hp⟩
  rw [hk]
  exact ⟨fun _ => rfl, hrest⟩

theorem silent_newSessionToPeer {myRole otherRole : Int32} :
    Silent (Node.newSessionToPeer peer sid myRole otherRole) := by
  refine ⟨by simp, ?_⟩
  rintro (_ | stream)
  · trivial
  · apply Silent.seq (p := writeRelayWakeArc stream) (silent_writeRelayArc.seq fun _ => trivial)
    rintro -
    apply silent_writeRelayArc.seq
    rintro key
    apply (silent_update (fun _ => rfl) _).seq
    rintro receiver
    apply silent_awaitAck.seq
    rintro ack
    refine ⟨by simp, ?_⟩
    rintro -
    apply (silent_read _).seq
    rintro session
    dsimp only
    split
    · exact (silent_write fun _ => rfl).seq fun _ => trivial
    · apply (silent_read _).seq
      rintro session
      apply (silent_unwrap session).seq
      rintro session
      exact (silent_write fun _ => rfl).seq fun _ => trivial

theorem silent_sendProxyRequestAndWait {request : Request} :
    Silent (Node.sendProxyRequestAndWait peer request) := by
  apply (silent_update (fun _ => rfl) _).seq
  rintro receiver
  refine ⟨by simp, ?_⟩
  rintro -
  exact silent_awaitAck

omit [Codec] in
theorem silent_eligible {invalid : List String} {excluded des id : String} :
    Silent (eligible node invalid excluded des id) := by
  have htail (p : PeerId) : Silent
      (if id ∉ invalid ∧ id ≠ node.getId ∧ id ≠ excluded ∧ id ≠ p.toBase58 then
        notRegistered id des
      else
        return false) := by
    split
    · apply (silent_read _).seq
      rintro (_ | hash)
      · trivial
      · exact (silent_unwrap _).seq fun _ => trivial
    · trivial
  rw [eligible_eq]
  cases node.bootPeerId with
  | none => exact ⟨by simp, htail⟩
  | some p => exact htail p

variable {nodeinfos : List NodeInfo} {excluded des : String}

omit [Codec] in
theorem silent_scanPeers {invalid : List String} {j : ℕ} {index : UInt64} :
    Silent (scanPeers node nodeinfos invalid excluded des j index) := by
  induction j generalizing index with
  | zero => trivial
  | succ j ih =>
    unfold scanPeers
    apply (silent_unwrap _).seq
    rintro info
    apply silent_eligible.seq
    rintro found
    split
    · trivial
    · exact ih

theorem silent_tryPeers {myRole otherRole : Int32} {i : ℕ} {invalid : List String} :
    Silent (tryPeers node nodeinfos excluded des sid myRole otherRole i invalid peer) := by
  induction i generalizing invalid peer with
  | zero => trivial
  | succ i ih =>
    have htail (peer : PeerId) (g : Option WrappedStream → Async (Option PeerId))
        (hnone : g none =
          tryPeers node nodeinfos excluded des sid myRole otherRole i (peer.toBase58 :: invalid) peer)
        (hsome : ∀ stream, g (some stream) = .ret (some peer)) :
        Silent (Node.newSessionToPeer peer sid myRole otherRole >>= g) := by
      apply silent_newSessionToPeer.seq
      rintro (_ | stream)
      · rw [hnone]
        exact ih
      · rw [hsome]
        trivial
    unfold tryPeers
    refine ⟨by simp, ?_⟩
    rintro index
    apply silent_scanPeers.seq
    rintro (_ | id)
    · exact htail peer _ rfl fun _ => rfl
    · apply (silent_unwrap _).seq
      rintro peer
      exact htail peer _ rfl fun _ => rfl

theorem silent_inviteCallee {newCircuit : NewCircuit} {join : PeerId} :
    Silent (inviteCallee node newCircuit peer join) := by
  unfold inviteCallee
  apply silent_sendProxyRequestAndWait.seq
  rintro ack
  refine ⟨by simp, ?_⟩
  rintro published
  apply (silent_unwrap _).seq
  rintro -
  apply (silent_read _).seq
  rintro (_ | session)
  · trivial
  · exact silent_sendRelayTwoway.seq fun _ => trivial

theorem silent_buildAsEntry {newCircuit : NewCircuit} :
    Silent (buildAsEntry node newCircuit peer) := by
  refine ⟨by simp, ?_⟩
  rintro (_ | nodeinfos)
  · trivial
  · refine ⟨by simp, ?_⟩
    rintro join
    apply silent_tryPeers.seq
    rintro (_ | join)
    · exact silent_handleCloseSession.seq fun _ => trivial
    · exact silent_inviteCallee

theorem silent_buildAsEntryAndAccess {newCircuit : NewCircuit} {toClientInfo : ClientInfo} :
    Silent (buildAsEntryAndAccess newCircuit toClientInfo) := by
  apply silent_newSessionToPeer.seq
  rintro (_ | stream)
  · trivial
  · apply (silent_read _).seq
    rintro (_ | session)
    · trivial
    · exact silent_sendRelayTwoway.seq fun _ => trivial

theorem silent_handleNewCircuit {request : Request} :
    Silent (handleNewCircuit node request peer) := by
  unfold handleNewCircuit
  cases (Codec.decode request.data : Option NewCircuit) with
  | none => trivial
  | some newCircuit =>
    apply (silent_read _).seq
    rintro fromClientInfo
    apply Silent.ite
    · trivial
    apply (silent_read _).seq
    rintro (_ | session)
    · trivial
    apply Silent.ite
    · trivial
    apply (silent_read _).seq
    rintro (_ | toClientInfo)
    · exact silent_buildAsEntry
    · exact silent_buildAsEntryAndAccess

/-- What a silent program sends is no acknowledgement. -/
theorem acksOf_silent {rely : Shared → Shared → Prop} {proviso : Proviso Shared Choice Act.Res}
    {s : Shared} {r : TurnRecord α} (hp : Silent p) (h : Turn node rely proviso p s r) :
    acksOf r.outputs = [] := by
  have hnone : ∀ o ∈ r.outputs, ∀ q, o ≠ .request (.ackRequest q) := by
    refine Semantics.Amid.outputs_within ?_ hp h
    rintro a ha c s x hx o ho q rfl
    rw [Shared.reply_outputs hx] at ho
    cases a with
    | send r =>
      simp only [Act.outputs, List.mem_singleton, Output.request.injEq] at ho
      exact ha q (by rw [ho])
    | newRelayStream peer => cases hw : x.answer <;> simp [Act.outputs, hw] at ho
    | _ => simp [Act.outputs] at ho
  rw [acksOf, List.filterMap_eq_nil_iff]
  rintro o ho
  split
  · exact absurd rfl (hnone _ ho _)
  · rfl

/-- A session that has a key before a silent program has one after it. -/
theorem task_silent {proviso : Proviso Shared Choice Act.Res} {s : Shared} {r : TurnRecord α}
    (hp : Silent p) (h : Turn node KeysStay proviso p s r) (hs : (s.circuitTask sid).isSome) :
    (r.state.circuitTask sid).isSome := by
  refine h.state_within (I := fun s => (s.circuitTask sid).isSome) ?_ ?_ ?_ hp hs
  · rintro s s' hstay hs
    exact hstay sid hs
  · rintro f hf s hs
    rw [hf s]
    exact hs
  · rintro a - c s x hx hs
    rw [(reply_sameMaps hx).circuitTask]
    exact hs

end WhiteNoise
