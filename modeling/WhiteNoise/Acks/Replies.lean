import WhiteNoise.Acks.Silent
import WhiteNoise.Network.Answers
import WhiteNoise.Network.Ideal

/-! # Which proxy requests are answered

Whoever sends a proxy request waits for its acknowledgement without a timeout.
New circuits and peer lists are always answered; a request to decrypt, to
encrypt or to register is answered only on success.
-/

namespace WhiteNoise.Replies

open Wire Process RequestLoops

section Generic

variable [Codec] [Crypto]

/-! ## When all others answer -/

/-- The others have answered every waiter, every session is open and nobody is registered. -/
def friendly (s : Shared) : Shared :=
  { s with
    clientPeerMap := fun _ => none
    sessionMap := fun sid => some ⟨sid, ⟨none, none⟩, 0⟩
    oneshots := fun _ => .sent ⟨"", true, []⟩
    proxyRequests := [⟨⟨""⟩, none, none⟩]
    cmdRequests := [⟨⟨""⟩, none⟩]
    gossip := [[]] }

variable {node : Node} {peer : PeerId} {request : Request} {s : Shared} {r : TurnRecord Unit}

omit [Codec] in
theorem tasksStay_friendly : TasksStay s (friendly s) := fun _ _ h => h

theorem answered_friendly {α : Type} {p : Async α} {c : Choice} (hnodes : ∀ l, c ≠ .nodeInfos (some l))
    (hpublished : c ≠ .published none) : (answered node).Holds (friendly s) c p where
  registered id des k _ hash h := by cases h
  entryPeers newCircuit peer k _ l hl := absurd hl (hnodes l)
  session sid k _ := rfl
  waiter receiver k _ := nofun
  published data k _ := hpublished

theorem answered_go (node : Node) {α : Type} (p : Async α) :
    (answered node).Holds (friendly s) .go p := by
  apply answered_friendly
  · rintro l h
    cases h
  · rintro h
    cases h

theorem answered_bytes (node : Node) (rand : Bytes) {α : Type} (p : Async α) :
    (answered node).Holds (friendly s) (.bytes rand) p := by
  apply answered_friendly
  · rintro l h
    cases h
  · rintro h
    cases h

omit [Codec] in
/-- Every request that is served is answered in a friendly state. -/
theorem exists_reply_friendly {a : Act} (ha : a.Served) : ∃ c x,
    (∀ l, c ≠ .nodeInfos (some l)) ∧ c ≠ .published none ∧
      Shared.reply a c (friendly s) = some x := by
  cases a with
  | read w => exact ha.elim
  | nextData channel => exact ha.elim
  | newRelayStream peer => exact ⟨.stream none, _, nofun, nofun, rfl⟩
  | getMainNets n => exact ⟨.nodeInfos none, _, nofun, nofun, rfl⟩
  | publish b => exact ⟨.published (some true), _, nofun, nofun, rfl⟩
  | randomBytes => exact ⟨.bytes [], _, nofun, nofun, rfl⟩
  | randomBelow n => exact ⟨.bytes [], _, nofun, nofun, if_pos ha⟩
  | randomUsize => exact ⟨.usize 0, _, nofun, nofun, rfl⟩
  | randomPeerId => exact ⟨.peer ⟨""⟩, _, nofun, nofun, rfl⟩
  | now => exact ⟨.micros 0, _, nofun, nofun, rfl⟩
  | _ => exact ⟨.go, _, nofun, nofun, rfl⟩

/-- A program that endures has a run. -/
theorem exists_turn {α : Type} {Q : α → Prop} {p : Async α} (h : Endures node Q p) (s : Shared) :
    ∃ r, Turn node TasksStay (answered node) p s r := by
  apply Semantics.Survives.exists_amid _ h s
  rintro s
  refine ⟨friendly s, tasksStay_friendly, ?_, ?_⟩
  · rintro f k
    exact ⟨.go, answered_go node _⟩
  · rintro a k ha
    obtain ⟨c, x, hnodes, hpublished, hx⟩ := exists_reply_friendly ha
    exact ⟨c, x, answered_friendly hnodes hpublished, hx⟩

/-! ## The five types -/

/-- A request of one of the five types that are answered, with data of that type. -/
inductive Wellformed (request : Request) : Prop where
  | decryptGossip (h : request.reqtype = Reqtype.decryptGossip.toI32) (decrypt : Decrypt)
      (hdec : Codec.decode request.data = some decrypt)
  | negPlainText (h : request.reqtype = Reqtype.negPlainText.toI32) (neg : NegPlaintext)
      (hdec : Codec.decode request.data = some neg)
  | mainNetPeers (h : request.reqtype = Reqtype.mainNetPeers.toI32) (msg : MainNetPeers)
      (hdec : Codec.decode request.data = some msg)
  | newProxy (h : request.reqtype = Reqtype.newProxy.toI32) (msg : NewProxy)
      (hdec : Codec.decode request.data = some msg)
  | newCircuit (h : request.reqtype = Reqtype.newCircuit.toI32) (msg : NewCircuit)
      (hdec : Codec.decode request.data = some msg)

/-- The outputs have exactly one acknowledgement, to the peer and under the identifier. -/
def Replied (peer : PeerId) (id : String) (os : List Output) : Prop :=
  ∃ ack, acksOf os = [⟨peer, some ack⟩] ∧ ack.commandId = id

/-- The loop can serve the request, and whenever it has, the request is replied to. -/
def Answers (node : Node) (s : Shared) (peer : PeerId) (request : Request) : Prop :=
  (∃ r, Turn node TasksStay (answered node)
      (processProxyRequest node ⟨peer, some request, none⟩) s r) ∧
    ∀ r, Turn node TasksStay (answered node)
      (processProxyRequest node ⟨peer, some request, none⟩) s r →
        Replied peer request.reqId r.outputs

/-- A text to decrypt opens and is an invitation, a text to encrypt is for a session with a key that
seals it, and an identity to register can be hashed. -/
structure Answerable (node : Node) (s : Shared) (request : Request) : Prop where
  decryptGossip : request.reqtype = Reqtype.decryptGossip.toI32 →
    ∀ decrypt : Decrypt, Codec.decode request.data = some decrypt →
      (decryptAnswer node decrypt.cypher).isSome
  negPlainText : request.reqtype = Reqtype.negPlainText.toI32 →
    ∀ neg : NegPlaintext, Codec.decode request.data = some neg →
      ∃ composit, s.circuitTask neg.sessionId = some composit ∧
        ∀ rand, (negAnswer rand composit neg.neg).isSome
  newProxy : request.reqtype = Reqtype.newProxy.toI32 →
    ∀ msg : NewProxy, Codec.decode request.data = some msg →
      (fromWhitenoiseToHash msg.whiteNoiseId).isSome

omit [Codec] [Crypto] in
theorem replied_single {os : List Output} {ack : Ack}
    (h : os = [.request (.ackRequest ⟨peer, some ack⟩)]) : Replied peer ack.commandId os :=
  ⟨ack, by rw [h]; rfl, rfl⟩

omit [Codec] [Crypto] in
theorem replied_successAck_iff {data : Option Bytes} :
    Replied peer request.reqId (successAck peer request data) ↔ data.isSome := by
  constructor
  · rintro ⟨ack, hack, -⟩
    cases data with
    | none => cases hack
    | some data => rfl
  · rintro h
    obtain ⟨data, rfl⟩ := Option.isSome_iff_exists.mp h
    exact replied_single rfl

theorem answers_decryptGossip_iff (h : request.reqtype = Reqtype.decryptGossip.toI32)
    {decrypt : Decrypt} (hdec : Codec.decode request.data = some decrypt) :
    Answers node s peer request ↔ (decryptAnswer node decrypt.cypher).isSome := by
  rw [Answers, processProxyRequest_decryptGossip h]
  constructor
  · rintro ⟨⟨r, hrun⟩, hall⟩
    have hreplied := hall r hrun
    rw [turn_handleDecryptGossip hdec hrun] at hreplied
    exact replied_successAck_iff.mp hreplied
  · rintro hsome
    constructor
    · exact exists_handleDecryptGossip tasksStay_friendly (answered_go node) hdec
    · rintro r hrun
      rw [turn_handleDecryptGossip hdec hrun]
      exact replied_successAck_iff.mpr hsome

/-- The key that counts is the one that is stored when the request is served, and it stays. -/
theorem answers_negPlainText_iff (h : request.reqtype = Reqtype.negPlainText.toI32)
    {neg : NegPlaintext} (hdec : Codec.decode request.data = some neg) :
    Answers node s peer request ↔ ∃ composit, s.circuitTask neg.sessionId = some composit ∧
      ∀ rand, (negAnswer rand composit neg.neg).isSome := by
  have hexists (rand : Bytes) : ∃ r,
      Turn node TasksStay (answered node) (handleNegPlainText request peer) s r ∧
        r.outputs = successAck peer request
          ((s.circuitTask neg.sessionId).bind fun pubBytes => negAnswer rand pubBytes neg.neg) :=
    exists_handleNegPlainText tasksStay_friendly tasksStay_friendly (answered_go node) hdec rand
      (answered_bytes node rand)
  rw [Answers, processProxyRequest_negPlainText h]
  constructor
  · rintro ⟨-, hall⟩
    have hanswer (rand : Bytes) : ((s.circuitTask neg.sessionId).bind fun pubBytes =>
        negAnswer rand pubBytes neg.neg).isSome := by
      obtain ⟨r, hrun, hout⟩ := hexists rand
      have hreplied := hall r hrun
      rw [hout] at hreplied
      exact replied_successAck_iff.mp hreplied
    cases htask : s.circuitTask neg.sessionId with
    | none =>
      have hnone := hanswer []
      rw [htask] at hnone
      cases hnone
    | some composit =>
      refine ⟨composit, rfl, ?_⟩
      rintro rand
      have hsome := hanswer rand
      rwa [htask, Option.bind_some] at hsome
  · rintro ⟨composit, htask, hseals⟩
    constructor
    · obtain ⟨r, hrun, -⟩ := hexists []
      exact ⟨r, hrun⟩
    · rintro r hrun
      obtain ⟨s', rand, hstay, hout⟩ := turn_handleNegPlainText hdec hrun
      rw [hout, hstay _ _ htask, Option.bind_some]
      exact replied_successAck_iff.mpr (hseals rand)

theorem answers_mainNetPeers (h : request.reqtype = Reqtype.mainNetPeers.toI32)
    {msg : MainNetPeers} (hdec : Codec.decode request.data = some msg) :
    Answers node s peer request := by
  have hsome : (Codec.decode request.data : Option MainNetPeers).isSome := by
    rw [hdec]
    rfl
  rw [Answers, processProxyRequest_mainNetPeers h]
  constructor
  · exact exists_turn (endures_handleMainNetPeers hsome) s
  · rintro r hrun
    simp only [handleMainNetPeers, hdec, Prog.unwrap_some, Prog.ret_bind, Prog.call_bind] at hrun
    obtain ⟨s', l, r', -, hsend, rfl⟩ := turn_getMainNets hrun
    cases l with
    | none => exact replied_single (turn_sendAck hsend)
    | some peers => exact replied_single (turn_sendAck hsend)

theorem answers_newProxy_iff (h : request.reqtype = Reqtype.newProxy.toI32)
    {msg : NewProxy} (hdec : Codec.decode request.data = some msg) :
    Answers node s peer request ↔ (fromWhitenoiseToHash msg.whiteNoiseId).isSome := by
  rw [Answers, processProxyRequest_newProxy h]
  cases hhash : fromWhitenoiseToHash msg.whiteNoiseId with
  | none =>
    have hfail : handleNewProxy request peer = .fail := by
      simp only [handleNewProxy, hdec, hhash, Prog.unwrap_some, Prog.ret_bind, Prog.unwrap_none,
        Prog.fail_bind]
    rw [hfail]
    constructor
    · rintro ⟨-, hall⟩
      obtain ⟨ack, hack, -⟩ := hall _ rfl
      cases hack
    · rintro hsome
      cases hsome
  | some hash =>
    have hsome : (fromWhitenoiseToHash msg.whiteNoiseId).isSome := by
      rw [hhash]
      rfl
    constructor
    · rintro -
      rfl
    · rintro -
      constructor
      · exact exists_turn (endures_handleNewProxy hdec hsome) s
      · rintro r hrun
        simp only [handleNewProxy, hdec, hhash, Prog.unwrap_some, Prog.ret_bind,
          Prog.read_bind] at hrun
        obtain ⟨s', -, -, -, hfind⟩ := hrun
        beta_reduce at hfind
        split at hfind
        · exact replied_single (turn_sendAck hfind)
        · obtain ⟨s₁, c₁, -, -, s₂, c₂, -, -, hsend⟩ := hfind
          exact replied_single (turn_sendAck hsend)

/-- Building the circuit sends no acknowledgement, and ends if all others answer. -/
theorem answers_newCircuit (h : request.reqtype = Reqtype.newCircuit.toI32) :
    Answers node s peer request := by
  rw [Answers, processProxyRequest_newCircuit h]
  constructor
  · have hend : Endures node (fun _ => True) (do
        let res ← handleNewCircuit node request peer
        Node.sendAck peer ⟨request.reqId, res, []⟩) :=
      endures_handleNewCircuit.seq fun _ _ => Semantics.Survives.call trivial
    exact exists_turn hend s
  · rintro r hrun
    rcases hrun.bind with ⟨r₁, h₁, hnone, -⟩ | ⟨r₁, res, r₂, h₁, -, h₂, rfl⟩
    · obtain ⟨a, ha, -⟩ := endures_handleNewCircuit.amid h₁
      rw [hnone] at ha
      cases ha
    · have hsilent := acksOf_silent silent_handleNewCircuit h₁
      refine ⟨⟨request.reqId, res, []⟩, ?_, rfl⟩
      rw [Record.append, acksOf_append, hsilent, turn_sendAck h₂]
      rfl

/-- Every proxy request of the five types is replied to exactly when it is answerable. That holds
while inner requests are answered, registered identities are hashes, the identities in a list of
peers can be read, and no session is closed between the two looks of an operation that extends
it. -/
theorem proxy_requests_answered (node : Node) (s : Shared) (peer : PeerId) (request : Request)
    (h : Wellformed request) : Answers node s peer request ↔ Answerable node s request := by
  constructor
  · rintro hanswers
    constructor
    · rintro ht decrypt hdec
      exact (answers_decryptGossip_iff ht hdec).mp hanswers
    · rintro ht neg hdec
      exact (answers_negPlainText_iff ht hdec).mp hanswers
    · rintro ht msg hdec
      exact (answers_newProxy_iff ht hdec).mp hanswers
  · rintro ha
    cases h with
    | decryptGossip ht decrypt hdec =>
      exact (answers_decryptGossip_iff ht hdec).mpr (ha.decryptGossip ht decrypt hdec)
    | negPlainText ht neg hdec =>
      exact (answers_negPlainText_iff ht hdec).mpr (ha.negPlainText ht neg hdec)
    | mainNetPeers ht msg hdec => exact answers_mainNetPeers ht hdec
    | newProxy ht msg hdec => exact (answers_newProxy_iff ht hdec).mpr (ha.newProxy ht msg hdec)
    | newCircuit ht msg hdec => exact answers_newCircuit ht

end Generic

/-! ## A text that is no invitation -/

namespace Sample

def node : Node := ⟨(⟨.ed25519, List.replicate 32 7⟩ : Ideal.Keypair), none, none⟩

def remote : PeerId := ⟨"remote"⟩

/-- A request for a list of three peers. -/
def mainNets : Request :=
  ⟨"id", "", Reqtype.mainNetPeers.toI32, Codec.encode ({ max := 3 } : MainNetPeers)⟩

/-- A text that opens, but is no invitation. -/
def gossip : Request :=
  ⟨"id", "", Reqtype.decryptGossip.toI32,
    Codec.encode ({ destination := "", cypher := List.replicate 32 7 ++ [255] } : Decrypt)⟩

end Sample

theorem proxy_requests_answered_mainNets :
    Answers Sample.node {} Sample.remote Sample.mainNets := by
  refine (proxy_requests_answered Sample.node {} Sample.remote Sample.mainNets
    (.mainNetPeers rfl _ (Codec.decode_encode _))).mpr ?_
  constructor
  · rintro h
    exact absurd h (by decide)
  · rintro h
    exact absurd h (by decide)
  · rintro h
    exact absurd h (by decide)

/-- The loop goes on without an acknowledgement. -/
theorem not_proxy_requests_answered : Wellformed Sample.gossip ∧
    ∃ r, Turn Sample.node TasksStay (answered Sample.node)
        (processProxyRequest Sample.node ⟨Sample.remote, some Sample.gossip, none⟩) {} r ∧
      r.answer = some () ∧ acksOf r.outputs = [] := by
  constructor
  · exact .decryptGossip rfl _ (Codec.decode_encode _)
  · refine ⟨⟨some (), {}, [], [], []⟩, ?_, rfl, rfl⟩
    have hrun : processProxyRequest Sample.node ⟨Sample.remote, some Sample.gossip, none⟩ =
        .ret () := by
      have hopens : decrypts Sample.node (List.replicate 32 7 ++ [255]) = some [255] := by decide
      have hneg : ¬ (Codec.decode [255] : Option Negotiate).isSome := by decide
      rw [processProxyRequest_decryptGossip rfl, handleDecryptGossip_eq (Codec.decode_encode _),
        hopens, Prog.unwrap_some, Prog.ret_bind, if_neg hneg]
      rfl
    rw [hrun]
    rfl

end WhiteNoise.Replies
