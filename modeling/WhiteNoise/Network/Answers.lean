import WhiteNoise.Network.Turns

/-! # What the proxy loop answers

The body of the loop for each type of request, and the acknowledgement that
ends it, as a function of the request and of what is read from the maps.
-/

namespace WhiteNoise

open Wire Process

variable [Codec] [Crypto]

section

variable {node : Node} {peer : PeerId} {request : Request}

theorem processProxyRequest_decryptGossip (h : request.reqtype = Reqtype.decryptGossip.toI32) :
    processProxyRequest node ⟨peer, some request, none⟩ = handleDecryptGossip node request peer := by
  simp [processProxyRequest, h]

theorem processProxyRequest_negPlainText (h : request.reqtype = Reqtype.negPlainText.toI32) :
    processProxyRequest node ⟨peer, some request, none⟩ = handleNegPlainText request peer := by
  simp [processProxyRequest, h, Reqtype.toI32]

theorem processProxyRequest_mainNetPeers (h : request.reqtype = Reqtype.mainNetPeers.toI32) :
    processProxyRequest node ⟨peer, some request, none⟩ = handleMainNetPeers request peer := by
  simp [processProxyRequest, h, Reqtype.toI32]

theorem processProxyRequest_newProxy (h : request.reqtype = Reqtype.newProxy.toI32) :
    processProxyRequest node ⟨peer, some request, none⟩ = handleNewProxy request peer := by
  simp [processProxyRequest, h, Reqtype.toI32]

theorem processProxyRequest_newCircuit (h : request.reqtype = Reqtype.newCircuit.toI32) :
    processProxyRequest node ⟨peer, some request, none⟩ = (do
      let res ← handleNewCircuit node request peer
      Node.sendAck peer ⟨request.reqId, res, []⟩) := by
  simp [processProxyRequest, h, Reqtype.toI32]

end

/-- The plain text of an invitation. -/
def decrypts (node : Node) (cypher : Bytes) : Option Bytes :=
  match Crypto.kind node.keypair with
  | .ed25519 => Crypto.eciesEd25519Decrypt node.keypair cypher
  | .secp256k1 => Crypto.eciesDecrypt node.keypair cypher
  | .other => none

/-- The plain text that a request to decrypt is answered with. -/
def decryptAnswer (node : Node) (cypher : Bytes) : Option Bytes :=
  (decrypts node cypher).filter fun plainText => (Codec.decode plainText : Option Negotiate).isSome

/-- The invitation sealed under the key behind the byte for its kind. -/
def negAnswer (rand pubBytes neg : Bytes) : Option Bytes := do
  let kind ← pubBytes.head?
  if kind = 48 then Crypto.eciesEd25519Encrypt rand pubBytes.tail neg
  else Crypto.eciesEncrypt rand pubBytes.tail neg

/-- An acknowledgement of success with the data, if there are any. -/
def successAck (peer : PeerId) (request : Request) (data : Option Bytes) : List Output :=
  data.toList.map fun data => .request (.ackRequest ⟨peer, some ⟨request.reqId, true, data⟩⟩)

section

variable {node : Node} {peer : PeerId} {request : Request}

theorem handleDecryptGossip_eq {decrypt : Decrypt}
    (hdec : Codec.decode request.data = some decrypt) :
    handleDecryptGossip node request peer = (do
      let plainText ← Prog.unwrap (decrypts node decrypt.cypher)
      if (Codec.decode plainText : Option Negotiate).isSome then
        Node.sendAck peer ⟨request.reqId, true, plainText⟩) := by
  simp only [handleDecryptGossip, hdec, Prog.unwrap_some, Prog.ret_bind, decrypts]
  cases Crypto.kind node.keypair with
  | ed25519 => rfl
  | secp256k1 => rfl
  | other => rfl

theorem handleNegPlainText_eq {neg : NegPlaintext}
    (hdec : Codec.decode request.data = some neg) :
    handleNegPlainText request peer = (do
      let pubBytes ← Prog.unwrap
        (← Prog.read fun s : Shared => s.circuitTask neg.sessionId)
      let kind ← Prog.unwrap pubBytes.head?
      let rand ← Prog.call Act.randomBytes
      let cryptedText ← Prog.unwrap
        (if kind = 48 then Crypto.eciesEd25519Encrypt rand pubBytes.tail neg.neg
        else Crypto.eciesEncrypt rand pubBytes.tail neg.neg)
      Node.sendAck peer ⟨request.reqId, true, cryptedText⟩) := by
  simp only [handleNegPlainText, hdec, Prog.unwrap_some, Prog.ret_bind]
  congr
  funext o
  congr
  funext pubBytes
  congr
  funext kind
  congr
  funext rand
  split <;> rfl

variable {rely : Shared → Shared → Prop} {proviso : Proviso Shared Choice Act.Res} {s : Shared}
  {r : TurnRecord Unit}

theorem turn_randomBytes {α : Type} {k : Bytes → Async α} {r : TurnRecord α}
    (h : Turn node rely proviso (.act .randomBytes k) s r) :
    ∃ s' b r', rely s s' ∧ Turn node rely proviso (k b) s' r' ∧
      r = r'.after ⟨.randomBytes, b⟩ [] [] := by
  obtain ⟨s', c, x, r', hs, -, hx, hk, rfl⟩ := h
  cases c with
  | bytes b =>
    cases hx
    exact ⟨s', b, r', hs, hk, rfl⟩
  | _ => cases hx

/-- A request to decrypt is answered if the text opens and is an invitation. -/
theorem turn_handleDecryptGossip {decrypt : Decrypt}
    (hdec : Codec.decode request.data = some decrypt)
    (h : Turn node rely proviso (handleDecryptGossip node request peer) s r) :
    r.outputs = successAck peer request (decryptAnswer node decrypt.cypher) := by
  rw [handleDecryptGossip_eq hdec] at h
  unfold decryptAnswer
  rcases h.unwrap with ⟨plainText, hplain, hrun⟩ | ⟨hnone, rfl⟩
  · rw [hplain]
    by_cases hneg : (Codec.decode plainText : Option Negotiate).isSome
    · rw [if_pos hneg] at hrun
      rw [turn_sendAck hrun, Option.filter_some, if_pos hneg]
      rfl
    · rw [if_neg hneg] at hrun
      obtain rfl : r = _ := hrun
      rw [Option.filter_some, if_neg hneg]
      rfl
  · rw [hnone]
    rfl

/-- A request to encrypt is answered if the session has a key and the text can be sealed. -/
theorem turn_handleNegPlainText {neg : NegPlaintext}
    (hdec : Codec.decode request.data = some neg)
    (h : Turn node rely proviso (handleNegPlainText request peer) s r) :
    ∃ s' rand, rely s s' ∧ r.outputs = successAck peer request
      ((s'.circuitTask neg.sessionId).bind fun pubBytes => negAnswer rand pubBytes neg.neg) := by
  rw [handleNegPlainText_eq hdec] at h
  obtain ⟨s', -, hs, -, hread⟩ := h
  beta_reduce at hread
  rcases Semantics.Amid.unwrap hread with ⟨pubBytes, hpub, hkind⟩ | ⟨hnone, rfl⟩
  · rcases Semantics.Amid.unwrap hkind with ⟨kind, hhead, hrand⟩ | ⟨hnone, rfl⟩
    · obtain ⟨s'', rand, r', -, hseal, rfl⟩ := turn_randomBytes hrand
      refine ⟨s', rand, hs, ?_⟩
      rw [hpub, Option.bind_some, negAnswer, hhead, Option.bind_eq_bind, Option.bind_some]
      rcases Semantics.Amid.unwrap hseal with ⟨c, hc, hsend⟩ | ⟨hnone, rfl⟩
      · rw [hc, Record.outputs_after, turn_sendAck hsend]
        rfl
      · rw [hnone]
        rfl
    · refine ⟨s', [], hs, ?_⟩
      rw [hpub, Option.bind_some, negAnswer, hnone]
      rfl
  · refine ⟨s', [], hs, ?_⟩
    rw [hnone]
    rfl

/-! ## Turns that others do not disturb -/

section

variable {s' : Shared} (hs : rely s s') (hrefl : rely s' s')
  (hgo : ∀ {γ : Type} (p : Async γ), proviso.Holds s' .go p)

include hs hgo

theorem exists_sendAck {ack : Ack} :
    ∃ r, Turn node rely proviso (Node.sendAck peer ack) s r ∧
      r.outputs = [.request (.ackRequest ⟨peer, some ack⟩)] :=
  ⟨_, ⟨s', .go, _, _, hs, hgo _, rfl, rfl, rfl⟩, rfl⟩

theorem exists_handleDecryptGossip {decrypt : Decrypt}
    (hdec : Codec.decode request.data = some decrypt) :
    ∃ r, Turn node rely proviso (handleDecryptGossip node request peer) s r := by
  rw [handleDecryptGossip_eq hdec]
  cases decrypts node decrypt.cypher with
  | none => exact ⟨_, rfl⟩
  | some plainText =>
    rw [Prog.unwrap_some, Prog.ret_bind]
    by_cases hneg : (Codec.decode plainText : Option Negotiate).isSome
    · rw [if_pos hneg]
      obtain ⟨r, hr, -⟩ := exists_sendAck hs hgo
      exact ⟨r, hr⟩
    · rw [if_neg hneg]
      exact ⟨_, rfl⟩

include hrefl

/-- Each draw of the random bytes is that of some turn. -/
theorem exists_handleNegPlainText {neg : NegPlaintext}
    (hdec : Codec.decode request.data = some neg) (rand : Bytes)
    (hbytes : ∀ {γ : Type} (p : Async γ), proviso.Holds s' (.bytes rand) p) :
    ∃ r, Turn node rely proviso (handleNegPlainText request peer) s r ∧
      r.outputs = successAck peer request
        ((s'.circuitTask neg.sessionId).bind fun pubBytes => negAnswer rand pubBytes neg.neg) := by
  rw [handleNegPlainText_eq hdec]
  cases hpub : s'.circuitTask neg.sessionId with
  | none =>
    refine ⟨⟨none, s', [], [], []⟩, ⟨s', .go, hs, hgo _, ?_⟩, rfl⟩
    simp only [Prog.bind_eq, Prog.ret_bind, hpub]
    rfl
  | some pubBytes =>
    cases hhead : pubBytes.head? with
    | none =>
      refine ⟨⟨none, s', [], [], []⟩, ⟨s', .go, hs, hgo _, ?_⟩, ?_⟩
      · simp only [Prog.bind_eq, Prog.ret_bind, hpub, Prog.unwrap_some, hhead]
        rfl
      · rw [Option.bind_some, negAnswer, hhead]
        rfl
    | some kind =>
      have hseal : ∃ r, Turn node rely proviso (do
          let cryptedText ← Prog.unwrap
            (if kind = 48 then Crypto.eciesEd25519Encrypt rand pubBytes.tail neg.neg
            else Crypto.eciesEncrypt rand pubBytes.tail neg.neg)
          Node.sendAck peer ⟨request.reqId, true, cryptedText⟩) s' r ∧
          r.outputs = successAck peer request (negAnswer rand pubBytes neg.neg) := by
        rw [negAnswer, hhead, Option.bind_eq_bind, Option.bind_some]
        cases (if kind = 48 then Crypto.eciesEd25519Encrypt rand pubBytes.tail neg.neg
          else Crypto.eciesEncrypt rand pubBytes.tail neg.neg) with
        | none => exact ⟨⟨none, s', [], [], []⟩, rfl, rfl⟩
        | some c => exact exists_sendAck hrefl hgo
      obtain ⟨r, hr, hout⟩ := hseal
      refine ⟨r.after ⟨.randomBytes, rand⟩ [] [], ⟨s', .go, hs, hgo _, ?_⟩, hout⟩
      simp only [Prog.bind_eq, Prog.ret_bind, hpub, Prog.unwrap_some, hhead]
      exact ⟨s', .bytes rand, _, r, hrefl, hbytes _, rfl, hr, rfl⟩

end

end

end WhiteNoise
