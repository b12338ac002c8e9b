import WhiteNoise.Survival.Operations

/-! # Building a circuit when all others answer

While a task opens a session and chooses a peer for it, it unwraps what it has
looked up and what the others answer. If they answer, every unwrap is reached
with a value.
-/

namespace WhiteNoise.RequestLoops

open Wire Process

variable [Codec] [Crypto]

/-- The last test of `eligible`: the peer is not registered here under the destination. -/
def notRegistered (id des : String) : Async Bool := do
  match ← Prog.read fun s : Shared => s.clientPeerMap id with
  | none => return true
  | some hash => return (← Prog.unwrap (fromWhitenoiseToHash hash)) != des

/-- The peers of a list can be read, a registered identity can be hashed, a session that was seen is
still there, and what is waited for is answered. -/
structure Answered (node : Node) {α : Type} (s : Shared) (c : Choice) (p : Async α) : Prop where
  registered : ∀ id des (k : Bool → Async α), p = notRegistered id des >>= k →
    ∀ hash, s.clientPeerMap id = some hash → (fromWhitenoiseToHash hash).isSome
  entryPeers : ∀ newCircuit peer (k : Bool → Async α), p = buildAsEntry node newCircuit peer >>= k →
    ∀ l, c = .nodeInfos (some l) → ∀ info ∈ l, (peerIdOfBase58 info.id).isSome
  session : ∀ sid (k : Session → Async α),
    p = Async.getSession sid >>= (fun o => Prog.unwrap o >>= k) → (s.sessionMap sid).isSome
  waiter : ∀ receiver k, p = .act (.awaitAck receiver) k → s.oneshots receiver ≠ .dropped
  published : ∀ data k, p = .act (.publish data) k → c ≠ .published none

theorem Answered.of_bind {node : Node} {α β : Type} {s : Shared} {c : Choice} {p : Async α}
    {g : α → Async β} (h : Answered node s c (p >>= g)) : Answered node s c p where
  registered id des k hp := h.registered id des (fun a => k a >>= g) (by rw [hp, bind_assoc])
  entryPeers msg peer k hp := h.entryPeers msg peer (fun a => k a >>= g) (by rw [hp, bind_assoc])
  session sid k hp := h.session sid (fun a => k a >>= g) (by simp only [hp, bind_assoc])
  waiter receiver k hp := h.waiter receiver _ (by rw [hp, Prog.act_bind])
  published data k hp := h.published data _ (by rw [hp, Prog.act_bind])

/-- The operation is answered. -/
def answered (node : Node) : Proviso Shared Choice Act.Res :=
  ⟨Act.Served, fun s c p => Answered node s c p, Answered.of_bind⟩

variable {node : Node}

theorem answered_asks (a : Act) (h : a.Served) : (answered node).Asks a := h

omit [Codec] in
theorem eligible_eq (invalid : List String) (excluded des id : String) :
    eligible node invalid excluded des id = (do
      let bootstrapPeerId ← match node.bootPeerId with
        | some p => pure p
        | none => Prog.call Act.randomPeerId
      if id ∉ invalid ∧ id ≠ node.getId ∧ id ≠ excluded ∧ id ≠ bootstrapPeerId.toBase58 then
        notRegistered id des
      else
        return false) := rfl

/-! ## Sessions to peers -/

variable {α : Type} {Q : α → Prop} {w : WrappedStream} {sid : String} {peer : PeerId}

/-- The program survives answered operations. -/
abbrev Endures (node : Node) (Q : α → Prop) (p : Async α) : Prop :=
  (nodeSemantics node).Survives (answered node) Q p

omit [Codec] in
/-- A waiter that is not dropped gets an acknowledgement. -/
theorem reply_awaitAck {receiver : ℕ} {s : Shared} {c : Choice}
    {x : Reply Shared Task Output (Option Ack)} (hs : s.oneshots receiver ≠ .dropped)
    (hx : Shared.reply (.awaitAck receiver) c s = some x) :
    ∃ ack, s.oneshots receiver = .sent ack ∧ x.answer = some ack := by
  simp only [Shared.reply] at hx
  split at hx
  · cases hx
  · next ack hack =>
    cases hx
    exact ⟨ack, hack, rfl⟩
  · next hdropped => exact absurd hdropped hs

theorem endures_awaitAck {receiver : ℕ} :
    Endures node (fun _ => True) (Async.awaitAck receiver) := by
  refine ⟨trivial, fun s c x hs hx => ?_⟩
  obtain ⟨ack, -, hx⟩ := reply_awaitAck (c := c) (hs.waiter receiver _ rfl) hx
  rw [hx]
  trivial

theorem endures_sendProxyRequestAndWait {request : Request} :
    Endures node (fun _ => True) (Node.sendProxyRequestAndWait peer request) := by
  apply Semantics.Survives.update.seq
  intro receiver _
  apply (Semantics.Survives.call trivial).seq
  intro _ _
  exact endures_awaitAck

theorem endures_getSession {g : Session → Async α} (h : ∀ session, Endures node Q (g session)) :
    Endures node Q (Async.getSession sid >>= fun o => Prog.unwrap o >>= g) := by
  intro s c hs
  obtain ⟨session, hsession⟩ := Option.isSome_iff_exists.mp (hs.session sid g rfl)
  dsimp only
  rw [hsession]
  exact h session

theorem endures_newSessionToPeer {myRole otherRole : Int32} :
    Endures node (fun _ => True) (Node.newSessionToPeer peer sid myRole otherRole) := by
  apply (Semantics.Survives.call trivial).seq
  intro stream _
  cases stream with
  | none => trivial
  | some stream =>
    apply ((survives_writeRelayArc answered_asks).seq fun _ _ => trivial : Endures node (fun _ => True)
      (writeRelayWakeArc stream)).seq
    intro _ _
    apply (survives_writeRelayArc answered_asks).seq
    intro key _
    apply Semantics.Survives.update.seq
    intro receiver _
    apply endures_awaitAck.seq
    intro _ _
    apply (Semantics.Survives.call trivial).seq
    intro _ _
    apply Semantics.Survives.read.seq
    intro session _
    dsimp only
    split
    · exact Semantics.Survives.write.seq fun _ _ => trivial
    · apply endures_getSession
      intro session
      exact Semantics.Survives.write.seq fun _ _ => trivial

/-! ## Choosing a peer -/

theorem endures_notRegistered {id des : String} :
    Endures node (fun _ => True) (notRegistered id des) := by
  intro s c hs
  have hhash := hs.registered id des .ret (Prog.bind_ret _).symm
  simp only [Prog.bind_eq, Prog.ret_bind]
  cases hid : s.clientPeerMap id with
  | none => trivial
  | some hash =>
    obtain ⟨x, hx⟩ := Option.isSome_iff_exists.mp (hhash hash hid)
    simp only [hx, Prog.unwrap_some, Prog.ret_bind]
    trivial

theorem endures_eligible {invalid : List String} {excluded des id : String} :
    Endures node (fun _ => True) (eligible node invalid excluded des id) := by
  have htail (p : PeerId) : Endures node (fun _ => True)
      (if id ∉ invalid ∧ id ≠ node.getId ∧ id ≠ excluded ∧ id ≠ p.toBase58 then
        notRegistered id des
      else
        return false) := by
    apply Semantics.Survives.ite
    · exact fun _ => endures_notRegistered
    · exact fun _ => trivial
  rw [eligible_eq]
  cases node.bootPeerId with
  | none => exact (Semantics.Survives.call trivial).seq fun p _ => htail p
  | some p => exact htail p

variable {nodeinfos : List NodeInfo} {excluded des : String}

/-- A scan stays inside the list and finds a peer of it. -/
theorem endures_scanPeers {invalid : List String} {j : ℕ} {index : UInt64}
    (h : ∀ info ∈ nodeinfos, (peerIdOfBase58 info.id).isSome) (hj : j ≤ nodeinfos.length) :
    Endures node (fun found => ∀ id, found = some id → (peerIdOfBase58 id).isSome)
      (scanPeers node nodeinfos invalid excluded des j index) := by
  induction j generalizing index with
  | zero => exact fun id hid => nomatch hid
  | succ j ih =>
    unfold scanPeers
    have hlt : (index + 1).toNat % nodeinfos.length < nodeinfos.length :=
      Nat.mod_lt _ (by omega)
    dsimp only
    rw [List.getElem?_eq_getElem hlt, Prog.unwrap_some, Prog.ret_bind]
    apply endures_eligible.seq
    intro found _
    apply Semantics.Survives.ite
    · rintro - id ⟨⟩
      exact h _ (List.getElem_mem hlt)
    · exact fun _ => ih (by omega)

theorem endures_tryPeers {myRole otherRole : Int32} {i : ℕ} {invalid : List String}
    (h : ∀ info ∈ nodeinfos, (peerIdOfBase58 info.id).isSome) :
    Endures node (fun _ => True)
      (tryPeers node nodeinfos excluded des sid myRole otherRole i invalid peer) := by
  induction i generalizing invalid peer with
  | zero => trivial
  | succ i ih =>
    unfold tryPeers
    apply (Semantics.Survives.call trivial).seq
    intro index _
    apply (endures_scanPeers h le_rfl).seq
    intro found hfound
    have htail (peer : PeerId) (g : Option WrappedStream → Async (Option PeerId))
        (hnone : g none =
          tryPeers node nodeinfos excluded des sid myRole otherRole i (peer.toBase58 :: invalid) peer)
        (hsome : ∀ stream, g (some stream) = .ret (some peer)) :
        Endures node (fun _ => True)
          (Node.newSessionToPeer peer sid myRole otherRole >>= g) := by
      apply endures_newSessionToPeer.seq
      intro stream _
      cases stream with
      | none =>
        rw [hnone]
        exact ih
      | some stream =>
        rw [hsome]
        trivial
    cases found with
    | none => exact htail peer _ rfl fun _ => rfl
    | some id =>
      apply (Semantics.Survives.unwrap (hfound id rfl)).seq
      intro peer _
      exact htail peer _ rfl fun _ => rfl

omit [Codec] in
theorem reply_getMainNets {n : Int32} {s : Shared} {c : Choice}
    {x : Reply Shared Task Output (Option (List NodeInfo))}
    (hx : Shared.reply (.getMainNets n) c s = some x) : c = .nodeInfos x.answer := by
  cases c with
  | nodeInfos l =>
    cases hx
    rfl
  | _ => cases hx

omit [Codec] in
theorem reply_publish {data : Bytes} {s : Shared} {c : Choice}
    {x : Reply Shared Task Output (Option Bool)}
    (hx : Shared.reply (.publish data) c s = some x) : c = .published x.answer := by
  cases c with
  | published b =>
    cases hx
    rfl
  | _ => cases hx

/-! ## The loops -/

theorem endures_inviteCallee {newCircuit : NewCircuit} {join : PeerId} :
    Endures node (fun _ => True) (inviteCallee node newCircuit peer join) := by
  unfold inviteCallee
  apply endures_sendProxyRequestAndWait.seq
  intro ack _
  refine ⟨trivial, fun s c x hs hx => ?_⟩
  obtain ⟨published, hsome⟩ := Option.ne_none_iff_exists'.mp fun hnone =>
    hs.published _ _ rfl (hnone ▸ reply_publish hx)
  simp only [Prog.bind_eq, Prog.ret_bind, hsome, Prog.unwrap_some]
  apply Semantics.Survives.read.seq
  intro session _
  cases session with
  | none => trivial
  | some session => exact (survives_sendRelayTwoway answered_asks).seq fun _ _ => trivial

theorem endures_buildAsEntry {newCircuit : NewCircuit} :
    Endures node (fun _ => True) (buildAsEntry node newCircuit peer) := by
  have hpeers {s : Shared} {c : Choice}
      (hs : (answered node).Holds s c (buildAsEntry node newCircuit peer)) :=
    hs.entryPeers newCircuit peer .ret (Prog.bind_ret _).symm
  simp only [buildAsEntry, Prog.call_bind] at hpeers ⊢
  refine ⟨trivial, fun s c x hs hx => ?_⟩
  have hc := reply_getMainNets hx
  dsimp only
  cases hl : x.answer with
  | none => trivial
  | some nodeinfos =>
    rw [hl] at hc
    refine ⟨trivial, fun _ _ join _ _ => ?_⟩
    beta_reduce
    apply (endures_tryPeers (hpeers hs nodeinfos hc)).seq
    intro found _
    cases found with
    | none => exact (survives_close answered_asks).seq fun _ _ => trivial
    | some join => exact endures_inviteCallee

theorem endures_buildAsEntryAndAccess {newCircuit : NewCircuit} {toClientInfo : ClientInfo} :
    Endures node (fun _ => True) (buildAsEntryAndAccess newCircuit toClientInfo) := by
  apply endures_newSessionToPeer.seq
  intro stream _
  cases stream with
  | none => trivial
  | some stream =>
    apply Semantics.Survives.read.seq
    intro session _
    cases session with
    | none => trivial
    | some session => exact (survives_sendRelayTwoway answered_asks).seq fun _ _ => trivial

theorem endures_handleNewCircuit {request : Request} :
    Endures node (fun _ => True) (handleNewCircuit node request peer) := by
  unfold handleNewCircuit
  cases (Codec.decode request.data : Option NewCircuit) with
  | none => trivial
  | some newCircuit =>
    apply Semantics.Survives.read.seq
    intro fromClientInfo _
    apply Semantics.Survives.ite
    · exact fun _ => trivial
    intro _
    apply Semantics.Survives.read.seq
    intro session _
    cases session with
    | none => trivial
    | some session =>
      apply Semantics.Survives.ite
      · exact fun _ => trivial
      intro _
      apply Semantics.Survives.read.seq
      intro toClientInfo _
      cases toClientInfo with
      | none => exact endures_buildAsEntry
      | some toClientInfo => exact endures_buildAsEntryAndAccess

/-! ## Registrations and lists of peers -/

theorem endures_handleNewProxy {request : Request} {newProxy : NewProxy}
    (hdec : Codec.decode request.data = some newProxy)
    (hhash : (fromWhitenoiseToHash newProxy.whiteNoiseId).isSome) :
    Endures node (fun _ => True) (handleNewProxy request peer) := by
  obtain ⟨hash, hhash⟩ := Option.isSome_iff_exists.mp hhash
  simp only [handleNewProxy, hdec, hhash, Prog.unwrap_some, Prog.ret_bind]
  apply Semantics.Survives.read.seq
  intro find _
  apply Semantics.Survives.ite
  · exact fun _ => Semantics.Survives.call trivial
  intro _
  apply Semantics.Survives.write.seq
  intro _ _
  apply Semantics.Survives.write.seq
  intro _ _
  exact Semantics.Survives.call trivial

theorem endures_handleMainNetPeers {request : Request}
    (hdec : (Codec.decode request.data : Option MainNetPeers).isSome) :
    Endures node (fun _ => True) (handleMainNetPeers request peer) := by
  apply (Semantics.Survives.unwrap hdec).seq
  intro mainNetPeers _
  apply (Semantics.Survives.call trivial).seq
  intro peers _
  cases peers with
  | none => exact Semantics.Survives.call trivial
  | some peers => exact Semantics.Survives.call trivial

end WhiteNoise.RequestLoops
