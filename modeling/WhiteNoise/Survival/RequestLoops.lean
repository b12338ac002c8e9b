import WhiteNoise.Network.Ideal
import WhiteNoise.Survival.Requests

/-! # What the request loops survive

One task each serves all proxy requests, all commands and all gossip. It
unwraps what it decodes from a message, what it finds in the maps and what
others answer, and a single failing unwrap ends it. Each unwrap is reached with
a value if the message is acceptable, the entry is there and the answer is
sound; then the loop goes on to the next message.
-/

namespace WhiteNoise.RequestLoops

open Wire Process

section Generic

variable [Codec] [Crypto]

/-! ## What has to be acceptable -/

/-- The node decrypts the text with its identity key. -/
def Opens (node : Node) (cypher : Bytes) : Prop :=
  match Crypto.kind node.keypair with
  | .ed25519 => (Crypto.eciesEd25519Decrypt node.keypair cypher).isSome
  | .secp256k1 => (Crypto.eciesDecrypt node.keypair cypher).isSome
  | .other => False

/-- The text can be encrypted for the callee, whose key stands behind a byte for its kind. -/
def Closes (composit neg : Bytes) : Prop :=
  ∃ kind, composit.head? = some kind ∧ ∀ rand,
    if kind = 48 then (Crypto.eciesEd25519Encrypt rand composit.tail neg).isSome
    else (Crypto.eciesEncrypt rand composit.tail neg).isSome

/-- What a proxy request carries decodes, and what it is about can be decrypted or hashed. -/
def Acceptable (node : Node) (r : NodeProxyRequest) : Prop :=
  r.peerOperation = none → ∃ request, r.proxyRequest = some request ∧
    (request.reqtype = Reqtype.decryptGossip.toI32 → ∃ decrypt : Decrypt,
      Codec.decode request.data = some decrypt ∧ Opens node decrypt.cypher) ∧
    (request.reqtype = Reqtype.negPlainText.toI32 →
      (Codec.decode request.data : Option NegPlaintext).isSome) ∧
    (request.reqtype = Reqtype.mainNetPeers.toI32 →
      (Codec.decode request.data : Option MainNetPeers).isSome) ∧
    (request.reqtype = Reqtype.newProxy.toI32 → ∃ newProxy : NewProxy,
      Codec.decode request.data = some newProxy ∧
        (fromWhitenoiseToHash newProxy.whiteNoiseId).isSome)

/-- What a command to extend a session carries decodes. -/
def AcceptableCmd (r : NodeCmdRequest) : Prop :=
  ∃ request, r.cmdRequest = some request ∧
    (request.type = Cmdtype.sessionExPend.toI32 →
      (Codec.decode request.data : Option SessionExpend).isSome)

/-- The gossip loop after the answer of its client. -/
def inviteClient (node : Node) (clientInfo : ClientInfo) (encryptedNeg : EncryptedNeg)
    (ack : Ack) : Async Unit := do
  if !ack.result then return () else
  let negotiate : Negotiate ← Prog.unwrap (Codec.decode ack.data)
  match ← Node.newSessionToPeer clientInfo.peerId negotiate.sessionId
      SessionRole.accessRole.toI32 SessionRole.answerRole.toI32 with
  | none => Node.handleCloseSession negotiate.sessionId
  | some _ =>
    if negotiate.join = node.getId then
      match ← Async.getSession negotiate.sessionId with
      | none => return ()
      | some session =>
        sendRelayTwoway session (newRelayCircuitSuccess negotiate.sessionId)
    else
      buildAsAccess node negotiate encryptedNeg.des

variable {node : Node}

theorem processPublishRequest_eq (data : Bytes) :
    processPublishRequest node data = (do
      let encryptedNeg : EncryptedNeg ← Prog.unwrap (Codec.decode data)
      if (← Prog.read fun s : Shared => (s.clientWnMap encryptedNeg.des).isSome) then
        let clientInfo ←
          Prog.unwrap (← Prog.read fun s : Shared => s.clientWnMap encryptedNeg.des)
        let decrypt : Decrypt :=
          { destination := encryptedNeg.des, cypher := encryptedNeg.cypher }
        let ack ← Node.sendProxyRequestAndWait clientInfo.peerId (decryptRequest node decrypt)
        inviteClient node clientInfo encryptedNeg ack) := rfl

/-- What is taken from a queue is acceptable, what is looked up is there and can be used, and what
is waited for is answered. -/
structure Sane (node : Node) {α : Type} (s : Shared) (c : Choice) (p : Async α) : Prop where
  proxyRequest : ∀ k, p = .act .nextProxyRequest k →
    ∀ r q, s.proxyRequests = r :: q → Acceptable node r
  cmdRequest : ∀ k, p = .act .nextCmdRequest k →
    ∀ r q, s.cmdRequests = r :: q → AcceptableCmd r
  gossip : ∀ k, p = .act .nextGossip k →
    ∀ data q, s.gossip = data :: q → (Codec.decode data : Option EncryptedNeg).isSome
  task : ∀ request peer (k : Unit → Async α), p = handleNegPlainText request peer >>= k →
    ∀ neg : NegPlaintext, Codec.decode request.data = some neg →
      ∃ composit, s.circuitTask neg.sessionId = some composit ∧ Closes composit neg.neg
  expend : ∀ r (k : Unit → Async α), p = processCmdRequest r >>= k →
    ∀ request, r.cmdRequest = some request → request.type = Cmdtype.sessionExPend.toI32 →
      ∀ msg : SessionExpend, Codec.decode request.data = some msg →
        ∀ session, s.sessionMap msg.sessionId = some session → ¬ session.ready →
          (peerIdOfBase58 msg.peerId).isSome
  client : ∀ des (k : ClientInfo → Async α),
    p = Prog.read (fun s => s.clientWnMap des) >>= (fun o => Prog.unwrap o >>= k) →
      (s.clientWnMap des).isSome
  registered : ∀ id des (k : Bool → Async α), p = notRegistered id des >>= k →
    ∀ hash, s.clientPeerMap id = some hash → (fromWhitenoiseToHash hash).isSome
  entryPeers : ∀ newCircuit peer (k : Bool → Async α), p = buildAsEntry node newCircuit peer >>= k →
    ∀ l, c = .nodeInfos (some l) → ∀ info ∈ l, (peerIdOfBase58 info.id).isSome
  accessPeers : ∀ negotiate des (k : Unit → Async α), p = buildAsAccess node negotiate des >>= k →
    ∀ l, c = .nodeInfos (some l) → ∀ info ∈ l, (peerIdOfBase58 info.id).isSome
  session : ∀ sid (k : Session → Async α),
    p = Async.getSession sid >>= (fun o => Prog.unwrap o >>= k) → (s.sessionMap sid).isSome
  waiter : ∀ receiver k, p = .act (.awaitAck receiver) k → s.oneshots receiver ≠ .dropped
  answer : ∀ receiver clientInfo encryptedNeg (k : Unit → Async α),
    p = Async.awaitAck receiver >>= inviteClient node clientInfo encryptedNeg >>= k →
      ∀ ack, s.oneshots receiver = .sent ack → ack.result →
        (Codec.decode ack.data : Option Negotiate).isSome
  published : ∀ data k, p = .act (.publish data) k → c ≠ .published none

theorem Sane.of_bind {α β : Type} {s : Shared} {c : Choice} {p : Async α} {g : α → Async β}
    (h : Sane node s c (p >>= g)) : Sane node s c p where
  proxyRequest k hp := h.proxyRequest _ (by rw [hp, Prog.act_bind])
  cmdRequest k hp := h.cmdRequest _ (by rw [hp, Prog.act_bind])
  gossip k hp := h.gossip _ (by rw [hp, Prog.act_bind])
  task request peer k hp := h.task request peer (fun a => k a >>= g) (by rw [hp, bind_assoc])
  expend r k hp := h.expend r (fun a => k a >>= g) (by rw [hp, bind_assoc])
  client des k hp := h.client des (fun a => k a >>= g) (by simp only [hp, bind_assoc])
  registered id des k hp := h.registered id des (fun a => k a >>= g) (by rw [hp, bind_assoc])
  entryPeers msg peer k hp := h.entryPeers msg peer (fun a => k a >>= g) (by rw [hp, bind_assoc])
  accessPeers msg des k hp := h.accessPeers msg des (fun a => k a >>= g) (by rw [hp, bind_assoc])
  session sid k hp := h.session sid (fun a => k a >>= g) (by simp only [hp, bind_assoc])
  waiter receiver k hp := h.waiter receiver _ (by rw [hp, Prog.act_bind])
  answer receiver clientInfo encryptedNeg k hp :=
    h.answer receiver clientInfo encryptedNeg (fun a => k a >>= g) (by rw [hp, bind_assoc])
  published data k hp := h.published data _ (by rw [hp, Prog.act_bind])

/-- The operation is sane. -/
def sane (node : Node) : Proviso Shared Choice Act.Res :=
  ⟨Act.Served, fun s c p => Sane node s c p, Sane.of_bind⟩

theorem asks (a : Act) (h : a.Served) : (sane node).Asks a := h

variable {α : Type} {Q : α → Prop} {peer : PeerId} {des : String}

/-- The program survives sane operations. -/
abbrev Survives (node : Node) (Q : α → Prop) (p : Async α) : Prop :=
  (nodeSemantics node).Survives (sane node) Q p

theorem Sane.answered {s : Shared} {c : Choice} {p : Async α} (h : Sane node s c p) :
    Answered node s c p where
  registered := h.registered
  entryPeers := h.entryPeers
  session := h.session
  waiter := h.waiter
  published := h.published

/-- Sane operations are answered ones. -/
theorem Endures.survives {p : Async α} (h : Endures node Q p) : Survives node Q p := by
  refine Semantics.Survives.of_holds ?_ ?_ h
  · exact fun _ ha => ha
  · exact fun _ _ _ hs => Sane.answered hs

/-! ## The loops -/

theorem survives_unregister : Survives node (fun _ => True) (unregister peer) := by
  apply Semantics.Survives.update.seq
  intro hash _
  cases hash with
  | none => trivial
  | some hash => exact Semantics.Survives.write

theorem survives_handleDecryptGossip {request : Request} {decrypt : Decrypt}
    (hdec : Codec.decode request.data = some decrypt) (hopens : Opens node decrypt.cypher) :
    Survives node (fun _ => True) (handleDecryptGossip node request peer) := by
  have htail (plainText : Bytes) : Survives node (fun _ => True)
      (if (Codec.decode plainText : Option Negotiate).isSome then
        Node.sendAck peer ⟨request.reqId, true, plainText⟩ else pure ()) := by
    apply Semantics.Survives.ite
    · exact fun _ => Semantics.Survives.call trivial
    · exact fun _ => trivial
  simp only [handleDecryptGossip, hdec, Prog.unwrap_some, Prog.ret_bind]
  unfold Opens at hopens
  cases hkind : Crypto.kind node.keypair with
  | ed25519 =>
    rw [hkind] at hopens
    exact (Semantics.Survives.unwrap hopens).seq fun plainText _ => htail plainText
  | secp256k1 =>
    rw [hkind] at hopens
    exact (Semantics.Survives.unwrap hopens).seq fun plainText _ => htail plainText
  | other =>
    rw [hkind] at hopens
    exact hopens.elim

theorem survives_handleNegPlainText {request : Request}
    (hdec : (Codec.decode request.data : Option NegPlaintext).isSome) :
    Survives node (fun _ => True) (handleNegPlainText request peer) := by
  obtain ⟨neg, hdec⟩ := Option.isSome_iff_exists.mp hdec
  have htask {s : Shared} {c : Choice}
      (hs : (sane node).Holds s c (handleNegPlainText request peer)) :=
    hs.task request peer .ret (Prog.bind_ret _).symm neg hdec
  simp only [handleNegPlainText, hdec, Prog.unwrap_some, Prog.ret_bind, Prog.read_bind] at htask ⊢
  intro s c hs
  obtain ⟨composit, hcomposit, kind, hkind, hcloses⟩ := htask hs
  beta_reduce
  rw [hcomposit, Prog.unwrap_some, Prog.ret_bind, hkind, Prog.unwrap_some, Prog.ret_bind]
  apply (Semantics.Survives.call trivial).seq
  intro rand _
  have hclose := hcloses rand
  split
  · next h48 =>
    rw [if_pos h48] at hclose
    exact (Semantics.Survives.unwrap hclose).seq fun _ _ => Semantics.Survives.call trivial
  · next h48 =>
    rw [if_neg h48] at hclose
    exact (Semantics.Survives.unwrap hclose).seq fun _ _ => Semantics.Survives.call trivial

theorem survives_processProxyRequest {r : NodeProxyRequest} (h : Acceptable node r) :
    Survives node (fun _ => True) (processProxyRequest node r) := by
  unfold processProxyRequest
  cases hop : r.peerOperation with
  | some operation =>
    cases operation with
    | disconnect => exact survives_unregister
  | none =>
    obtain ⟨request, hrequest, hdecrypt, hneg, hnets, hproxy⟩ := h hop
    dsimp only
    rw [hrequest, Prog.unwrap_some, Prog.ret_bind]
    apply Semantics.Survives.ite
    · intro ht
      obtain ⟨decrypt, hdec, hopens⟩ := hdecrypt ht
      exact survives_handleDecryptGossip hdec hopens
    intro _
    apply Semantics.Survives.ite
    · exact fun ht => survives_handleNegPlainText (hneg ht)
    intro _
    apply Semantics.Survives.ite
    · exact fun ht => (endures_handleMainNetPeers (hnets ht)).survives
    intro _
    apply Semantics.Survives.ite
    · intro ht
      obtain ⟨newProxy, hdec, hhash⟩ := hproxy ht
      exact (endures_handleNewProxy hdec hhash).survives
    intro _
    apply Semantics.Survives.ite
    · exact fun _ => survives_unregister
    intro _
    apply Semantics.Survives.ite
    · exact fun _ => endures_handleNewCircuit.survives.seq fun _ _ => Semantics.Survives.call trivial
    · exact fun _ => trivial

theorem survives_buildAsAccess {negotiate : Negotiate} :
    Survives node (fun _ => True) (buildAsAccess node negotiate des) := by
  have hpeers {s : Shared} {c : Choice}
      (hs : (sane node).Holds s c (buildAsAccess node negotiate des)) :=
    hs.accessPeers negotiate des .ret (Prog.bind_ret _).symm
  simp only [buildAsAccess, Prog.call_bind] at hpeers ⊢
  refine ⟨trivial, fun s c x hs hx => ?_⟩
  have hc := reply_getMainNets hx
  dsimp only
  cases hl : x.answer with
  | none => trivial
  | some nodeinfos =>
    rw [hl] at hc
    refine ⟨trivial, fun _ _ relay _ _ => ?_⟩
    beta_reduce
    apply (endures_tryPeers (hpeers hs nodeinfos hc)).survives.seq
    intro found _
    cases found with
    | none => exact survives_close asks
    | some relay =>
      apply (Semantics.Survives.update.seq fun _ _ =>
        (Semantics.Survives.call trivial).seq fun _ _ => endures_awaitAck.survives :
          Survives node (fun _ => True) (Node.externalSendNodeRequestAndWait _ _)).seq
      intro ack _
      split
      · exact survives_close asks
      · apply Semantics.Survives.read.seq
        intro session _
        cases session with
        | none => trivial
        | some session => exact survives_sendRelayTwoway asks

/-- The answer of the client decodes if the client agrees. -/
theorem survives_inviteClient {clientInfo : ClientInfo} {encryptedNeg : EncryptedNeg} {ack : Ack}
    (h : ack.result → (Codec.decode ack.data : Option Negotiate).isSome) :
    Survives node (fun _ => True) (inviteClient node clientInfo encryptedNeg ack) := by
  unfold inviteClient
  apply Semantics.Survives.ite
  · exact fun _ => trivial
  intro hresult
  rw [Bool.not_eq_true, Bool.not_eq_false'] at hresult
  apply (Semantics.Survives.unwrap (h hresult)).seq
  intro negotiate _
  apply endures_newSessionToPeer.survives.seq
  intro stream _
  cases stream with
  | none => exact survives_close asks
  | some stream =>
    apply Semantics.Survives.ite
    · intro _
      apply Semantics.Survives.read.seq
      intro session _
      cases session with
      | none => trivial
      | some session => exact survives_sendRelayTwoway asks
    · exact fun _ => survives_buildAsAccess

theorem survives_processPublishRequest {data : Bytes}
    (h : (Codec.decode data : Option EncryptedNeg).isSome) :
    Survives node (fun _ => True) (processPublishRequest node data) := by
  obtain ⟨encryptedNeg, hdec⟩ := Option.isSome_iff_exists.mp h
  rw [processPublishRequest_eq, hdec, Prog.unwrap_some, Prog.ret_bind]
  apply Semantics.Survives.read.seq
  intro found _
  apply Semantics.Survives.ite
  · intro _ s c hs
    obtain ⟨clientInfo, hclient⟩ := Option.isSome_iff_exists.mp (hs.client _ _ rfl)
    simp only [Prog.bind_eq, Prog.ret_bind, hclient, Prog.unwrap_some]
    simp only [Node.sendProxyRequestAndWait, Node.externalSendNodeRequestAndWait, bind_assoc]
    apply Semantics.Survives.update.seq
    intro receiver _
    apply (Semantics.Survives.call trivial).seq
    rintro _ -
    refine ⟨trivial, fun s c x hs hx => ?_⟩
    have hanswer := hs.answer receiver clientInfo encryptedNeg .ret (Prog.bind_ret _).symm
    obtain ⟨ack, hack, hx⟩ := reply_awaitAck (c := c) (hs.waiter receiver _ rfl) hx
    simp only [hx, Prog.bind_eq, Prog.ret_bind, Prog.unwrap_some]
    exact survives_inviteClient (hanswer ack hack)
  · exact fun _ => trivial

theorem survives_processCmdRequest {r : NodeCmdRequest} (h : AcceptableCmd r) :
    Survives node (fun _ => True) (processCmdRequest r) := by
  obtain ⟨request, hrequest, hexpend⟩ := h
  by_cases ht : request.type = Cmdtype.sessionExPend.toI32
  · obtain ⟨msg, hdec⟩ := Option.isSome_iff_exists.mp (hexpend ht)
    have hpeer {s : Shared} {c : Choice} (hs : (sane node).Holds s c (processCmdRequest r)) :=
      hs.expend r .ret (Prog.bind_ret _).symm request hrequest ht msg hdec
    simp only [processCmdRequest, hrequest, Prog.unwrap_some, Prog.ret_bind, if_pos ht, hdec,
      Async.getSession, Prog.read_bind] at hpeer ⊢
    intro s c hs
    have hid := hpeer hs
    beta_reduce
    cases hsession : s.sessionMap msg.sessionId with
    | none => exact (survives_close asks).seq fun _ _ => Semantics.Survives.call trivial
    | some session =>
      apply Semantics.Survives.ite
      · exact fun _ => (Semantics.Survives.call trivial).seq fun _ _ => survives_sendRelayTwoway asks
      · intro hready
        apply (Semantics.Survives.unwrap (hid session hsession hready)).seq
        intro sinkPeerId _
        apply endures_newSessionToPeer.survives.seq
        intro stream _
        cases stream with
        | none => exact (survives_close asks).seq fun _ _ => Semantics.Survives.call trivial
        | some stream => exact Semantics.Survives.call trivial
  · simp only [processCmdRequest, hrequest, Prog.unwrap_some, Prog.ret_bind, if_neg ht]
    trivial

/-! ## The loops in a pool -/

/-- The three loops. -/
inductive Loop : Task → Prop
  | proxy : Loop .processProxyRequest
  | cmd : Loop .processCmdRequest
  | publish : Loop .processPublishRequest

/-- A loop ends a turn with the next one. -/
def GoesOn (task : Task) (o : Option Task) : Prop := o = some task

theorem Loop.survives {task : Task} (h : Loop task) :
    Survives node (GoesOn task) (Task.body node task) := by
  cases h with
  | proxy =>
    refine ⟨trivial, fun s c x hs hx => ?_⟩
    obtain ⟨r, q, hq, rfl⟩ := Shared.dequeue_eq_some hx
    exact (survives_processProxyRequest (hs.proxyRequest _ rfl r q hq)).seq fun _ _ => rfl
  | cmd =>
    refine ⟨trivial, fun s c x hs hx => ?_⟩
    obtain ⟨r, q, hq, rfl⟩ := Shared.dequeue_eq_some hx
    exact (survives_processCmdRequest (hs.cmdRequest _ rfl r q hq)).seq fun _ _ => rfl
  | publish =>
    refine ⟨trivial, fun s c x hs hx => ?_⟩
    obtain ⟨data, q, hq, rfl⟩ := Shared.dequeue_eq_some hx
    exact (survives_processPublishRequest (hs.gossip _ rfl data q hq)).seq fun _ _ => rfl

/-- The request waits for a message of its queue, or for an acknowledgement. -/
def Waits (s : Shared) : Act → Prop
  | .nextProxyRequest => s.proxyRequests = []
  | .nextCmdRequest => s.cmdRequests = []
  | .nextGossip => s.gossip = []
  | .awaitAck receiver => s.oneshots receiver = .empty
  | _ => False

omit [Codec] in
theorem waits_or_reply {a : Act} (ha : a.Served) (s : Shared) :
    Waits s a ∨ ∃ c x, Shared.reply a c s = some x := by
  cases a with
  | spawn t => exact Or.inr ⟨.go, _, rfl⟩
  | newRelayStream peer => exact Or.inr ⟨.stream none, _, rfl⟩
  | write w b => exact Or.inr ⟨.go, _, rfl⟩
  | read w => exact ha.elim
  | close w => exact Or.inr ⟨.go, _, rfl⟩
  | send r => exact Or.inr ⟨.go, _, rfl⟩
  | awaitAck receiver =>
    cases h : s.oneshots receiver with
    | empty => exact Or.inl h
    | sent ack => exact Or.inr ⟨.go, ⟨some ack, s, [], []⟩, by simp [Shared.reply, h]⟩
    | dropped => exact Or.inr ⟨.go, ⟨none, s, [], []⟩, by simp [Shared.reply, h]⟩
  | getMainNets n => exact Or.inr ⟨.nodeInfos none, _, rfl⟩
  | publish b => exact Or.inr ⟨.published none, _, rfl⟩
  | nextProxyRequest =>
    cases h : s.proxyRequests with
    | nil => exact Or.inl h
    | cons r q => exact Or.inr ⟨.go, _, by rw [Shared.reply, h]; rfl⟩
  | nextCmdRequest =>
    cases h : s.cmdRequests with
    | nil => exact Or.inl h
    | cons r q => exact Or.inr ⟨.go, _, by rw [Shared.reply, h]; rfl⟩
  | nextGossip =>
    cases h : s.gossip with
    | nil => exact Or.inl h
    | cons data q => exact Or.inr ⟨.go, _, by rw [Shared.reply, h]; rfl⟩
  | nextData channel => exact ha.elim
  | randomBytes => exact Or.inr ⟨.bytes [], _, rfl⟩
  | randomBelow n => exact Or.inr ⟨.bytes [], _, if_pos ha⟩
  | randomUsize => exact Or.inr ⟨.usize 0, _, rfl⟩
  | randomPeerId => exact Or.inr ⟨.peer ⟨""⟩, _, rfl⟩
  | now => exact Or.inr ⟨.micros 0, _, rfl⟩

/-- A loop that is alive can take a turn unless it waits. -/
theorem waits_of_stuck {task : Task} {p : NodePool} {i : ℕ} {t : Thread}
    (ht : p.threads[i]? = some t) (hsurv : Survives node (GoesOn task) t)
    (hstuck : ∀ c, nodeStep node p (.thread i c) = none) :
    ∃ a k, t = .act a k ∧ Waits p.state a := by
  have hnone (c : Choice) : (nodeSemantics node).advance c p.state t = none := by
    have hc := hstuck c
    simp only [nodeStep, Semantics.step, ht] at hc
    split at hc
    · assumption
    · cases hc
  cases t with
  | ret o =>
    obtain rfl : o = some task := hsurv
    cases hnone .go
  | fail => exact hsurv.elim
  | atomic f k => cases hnone .go
  | act a k =>
    refine ⟨a, k, rfl, ?_⟩
    rcases waits_or_reply hsurv.1 p.state with hwaits | ⟨c, x, hx⟩
    · exact hwaits
    · have hc := hnone c
      simp only [Semantics.advance, nodeSemantics, hx] at hc
      cases hc

end Generic

namespace Sample

def node : Node := ⟨(⟨.ed25519, List.replicate 32 7⟩ : Ideal.Keypair), none, none⟩

def remote : PeerId := ⟨"remote"⟩

/-- A node with its proxy loop. -/
def fresh : NodePool := ⟨{}, [Task.body node .processProxyRequest]⟩

/-- A peer disconnects, and the loop takes the message. -/
def disconnect : List Event := [.proxyRequest ⟨remote, none, some .disconnect⟩, .thread 0 .go]

/-- A request of the peer with the bytes as its data, and the loop takes it. -/
def request (reqtype : Reqtype) (data : Bytes) : List Event :=
  [.proxyRequest ⟨remote, some ⟨"", "", reqtype.toI32, data⟩, none⟩, .thread 0 .go]

end Sample

/-- The head of the proxy loop is sane if the next request is acceptable. -/
theorem sane_head {node : Node} {s : Shared} {c : Choice} {k : NodeProxyRequest → Thread}
    (h : ∀ r q, s.proxyRequests = r :: q → Acceptable node r) :
    Sane node s c (.act .nextProxyRequest k) where
  proxyRequest _ _ := h
  cmdRequest k hp := by cases hp
  gossip k hp := by cases hp
  task request peer k hp neg hdec := by
    simp only [handleNegPlainText, hdec, Prog.unwrap_some, Prog.ret_bind] at hp
    cases hp
  expend r k hp request hrequest ht msg hdec := by
    simp only [processCmdRequest, hrequest, Prog.unwrap_some, Prog.ret_bind, if_pos ht, hdec] at hp
    cases hp
  client des k hp := by cases hp
  registered id des k hp := by cases hp
  entryPeers newCircuit peer k hp := by cases hp
  accessPeers negotiate des k hp := by cases hp
  session sid k hp := by cases hp
  waiter receiver k hp := by cases hp
  answer receiver clientInfo encryptedNeg k hp := by cases hp
  published data k hp := by cases hp

end WhiteNoise.RequestLoops
