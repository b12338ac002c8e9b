import WhiteNoise.Account.AccountService
import WhiteNoise.Network.Answers
import WhiteNoise.Network.Ideal

/-! # Negotiation with the dialed client

The dialing client stores the key in the identity it was given. An invitation
that it encrypts with the stored bytes is opened by the client with that
identity, and by its handler, which tells the kinds of key apart anew.
-/

namespace WhiteNoise.Account

open Wire Process

section Generic

variable [Codec] [Crypto] [Libraries]

/-- The cryptography of a node is that of the account service, for the keypairs in view. -/
structure Provides (view : Crypto.Keypair → Keypair) : Prop where
  bs58Encode : ∀ b, Crypto.bs58Encode b = Libraries.bs58Encode b
  bs58Decode : ∀ s, Crypto.bs58Decode s = Libraries.bs58Decode s
  kind : ∀ k, Crypto.kind k = (view k).kind
  publicBytes : ∀ k, Crypto.publicBytes k = (view k).publicBytes
  eciesEncrypt : ∀ rand pub plain, Crypto.eciesEncrypt rand pub plain = eciesEncrypt rand pub plain
  eciesEd25519Encrypt : ∀ rand pub plain,
    Crypto.eciesEd25519Encrypt rand pub plain = eciesEd25519Encrypt rand pub plain
  eciesDecrypt : ∀ k c, Crypto.eciesDecrypt k c = eciesDecrypt (view k) c
  eciesEd25519Decrypt : ∀ k c, Crypto.eciesEd25519Decrypt k c = eciesEd25519Decrypt (view k) c

/-- The proxy loop can serve the request, and whenever it has, it has sent one acknowledgement of
success and nothing else. -/
def Acknowledges (node : Node) (rely : Shared → Shared → Prop) (s : Shared) (peer : PeerId)
    (request : Request) (P : Bytes → Prop) : Prop :=
  (∃ r, Turn node rely .free (processProxyRequest node ⟨peer, some request, none⟩) s r) ∧
    ∀ r, Turn node rely .free (processProxyRequest node ⟨peer, some request, none⟩) s r →
      ∃ data, P data ∧
        r.outputs = [.request (.ackRequest ⟨peer, some ⟨request.reqId, true, data⟩⟩)]

/-- The others leave the stored key of the session. -/
def KeepsTask (sid : String) (s s' : Shared) : Prop := s'.circuitTask sid = s.circuitTask sid

variable {view : Crypto.Keypair → Keypair} {mulBase : Bytes → Bytes}
  {rawPublic : Libraries.EthSecret → Bytes} {wnId : String}

omit [Codec] in
/-- The identity that a node goes by is that of its keypair. -/
theorem whitenoiseId_eq (h : Provides view) (node : Node) :
    node.whitenoiseId = fromKeypairToWhitenoiseId (view node.keypair) := by
  simp only [Node.whitenoiseId, h.bs58Encode, h.kind, h.publicBytes]
  cases view node.keypair with
  | ed25519 k => rfl
  | secp256k1 k => rfl
  | other => rfl

/-- What is stored of a keypair: its public key behind the byte for its kind. -/
def Keypair.composit : Keypair → Bytes
  | .ed25519 k => 48 :: Libraries.edPublic k
  | .secp256k1 k => 49 :: Libraries.secpEncode (Libraries.secpPublic k)
  | .other => []

omit [Codec] [Crypto] [Libraries] in
theorem splitAtOne_append {c : Char} (hc : c.utf8Size = 1) (s : String) :
    splitAtOne (String.singleton c ++ s) = some (c, s) := by
  simp [splitAtOne, hc]

/-- Dialing an identity stores the key that the identity was made of. -/
theorem dial_stores (hview : Provides view) (hlaws : Laws mulBase rawPublic) {caller : Node}
    {localId : String} (hlocal : caller.whitenoiseId = some localId) {k : Keypair}
    (hid : fromKeypairToWhitenoiseId k = some wnId) :
    caller.dial wnId = (do
      let now ← Prog.call Act.now
      let sessionId := Node.generateSessionId wnId localId now
      Prog.write (Node.putTask sessionId k.composit)
      caller.enterCircuit wnId localId sessionId) := by
  cases k with
  | ed25519 k =>
    obtain rfl := Option.some.inj hid
    apply Node.dial_eq hlocal (splitAtOne_append (by decide : '0'.utf8Size = 1) _)
    rw [hview.bs58Decode, hlaws.bs58Decode_encode]
  | secp256k1 k =>
    obtain rfl := Option.some.inj hid
    apply Node.dial_eq hlocal (splitAtOne_append (by decide : '1'.utf8Size = 1) _)
    rw [hview.bs58Decode, hlaws.bs58Decode_encode]
  | other => cases hid

/-! ## The two handlers -/

variable {k : Keypair} {rely : Shared → Shared → Prop} {s : Shared} {peer : PeerId}
  {request : Request} {sid : String}

omit [Codec] in
/-- The stored key seals, and the keypair it is of opens. -/
theorem negAnswer_composit (hview : Provides view) (hlaws : Laws mulBase rawPublic)
    (hk : k.kind ≠ .other) (rand plain : Bytes) :
    ∃ c, negAnswer rand k.composit plain = some c ∧
      ∀ node : Node, view node.keypair = k → decrypts node c = some plain := by
  cases k with
  | ed25519 k =>
    obtain ⟨c, henc, hdec⟩ := eciesEd25519Decrypt_encrypt hlaws k rand plain
    refine ⟨c, ?_, ?_⟩
    · exact (hview.eciesEd25519Encrypt ..).trans henc
    · rintro node hnode
      rw [decrypts, hview.kind, hnode, hview.eciesEd25519Decrypt, hnode]
      exact hdec
  | secp256k1 k =>
    obtain ⟨c, henc, hdec⟩ := eciesDecrypt_encrypt hlaws k rand plain
    refine ⟨c, ?_, ?_⟩
    · exact (hview.eciesEncrypt ..).trans henc
    · rintro node hnode
      rw [decrypts, hview.kind, hnode, hview.eciesDecrypt, hnode]
      exact hdec
  | other => exact absurd rfl hk

omit [Libraries] in
/-- The owner of the keypair opens what was sealed for it, and shows it. -/
theorem acknowledges_decryptGossip {callee : Node} {cypher : Bytes} {n : Negotiate}
    (hrefl : ∀ s, rely s s) (hplain : decrypts callee cypher = some (Codec.encode n))
    (htype : request.reqtype = Reqtype.decryptGossip.toI32) {decrypt : Decrypt}
    (hdec : Codec.decode request.data = some decrypt) (hcypher : decrypt.cypher = cypher) :
    Acknowledges callee rely s peer request (· = Codec.encode n) := by
  have hanswer : decryptAnswer callee decrypt.cypher = some (Codec.encode n) := by
    rw [decryptAnswer, hcypher, hplain, Option.filter_some, if_pos]
    rw [Codec.decode_encode]
    rfl
  constructor
  · rw [processProxyRequest_decryptGossip htype]
    exact exists_handleDecryptGossip (hrefl s) (fun _ => trivial) hdec
  · rintro r hrun
    rw [processProxyRequest_decryptGossip htype] at hrun
    refine ⟨_, rfl, ?_⟩
    rw [turn_handleDecryptGossip hdec hrun, hanswer]
    rfl

/-- The bytes that dialing an identity stores seal every invitation such that the handler of the
owner of the identity opens it: whatever the randomness and whatever the other tasks of both do,
each of the two handlers can serve the request, and sends one acknowledgement of success and nothing
else. -/
theorem negotiation_reaches_dialed_key (hview : Provides view) (hlaws : Laws mulBase rawPublic)
    {caller callee : Node} {localId : String} (hlocal : caller.whitenoiseId = some localId)
    (hid : fromKeypairToWhitenoiseId (view callee.keypair) = some wnId) :
    ∃ composit,
      caller.dial wnId = (do
        let now ← Prog.call Act.now
        let sessionId := Node.generateSessionId wnId localId now
        Prog.write (Node.putTask sessionId composit)
        caller.enterCircuit wnId localId sessionId) ∧
      ∀ (n : Negotiate) (sid : String) (s : Shared), s.circuitTask sid = some composit →
        ∀ (entry : PeerId) (request : Request),
          request.reqtype = Reqtype.negPlainText.toI32 →
          Codec.decode request.data = some (⟨sid, Codec.encode n⟩ : NegPlaintext) →
          Acknowledges caller (KeepsTask sid) s entry request fun cypher =>
            ∀ (s' : Shared) (access : PeerId) (request' : Request) (decrypt : Decrypt),
              request'.reqtype = Reqtype.decryptGossip.toI32 →
              Codec.decode request'.data = some decrypt → decrypt.cypher = cypher →
              Acknowledges callee (fun _ _ => True) s' access request' (· = Codec.encode n) := by
  have hkind : (view callee.keypair).kind ≠ .other := by
    cases hview : view callee.keypair with
    | ed25519 k => exact nofun
    | secp256k1 k => exact nofun
    | other =>
      rw [hview] at hid
      cases hid
  refine ⟨_, dial_stores hview hlaws hlocal hid, ?_⟩
  rintro n sid s htask entry request htype hdec
  constructor
  · rw [processProxyRequest_negPlainText htype]
    have hkeeps : KeepsTask sid s s := rfl
    have hfree : ∀ {γ : Type} (c : Choice) (p : Async γ),
        (Proviso.free : Proviso Shared Choice Act.Res).Holds s c p := fun _ _ => trivial
    obtain ⟨r, hr, -⟩ := exists_handleNegPlainText hkeeps hkeeps (hfree .go) hdec [] (hfree _)
    exact ⟨r, hr⟩
  · rintro r hrun
    rw [processProxyRequest_negPlainText htype] at hrun
    obtain ⟨s', rand, hkeeps, hout⟩ := turn_handleNegPlainText hdec hrun
    obtain ⟨cypher, hcypher, hopens⟩ :=
      negAnswer_composit hview hlaws hkind rand (Codec.encode n)
    refine ⟨cypher, ?_, ?_⟩
    · rintro s₂ access request' decrypt htype' hdec' hdecrypt
      exact acknowledges_decryptGossip (fun _ => trivial) (hopens callee rfl) htype' hdec' hdecrypt
    · rw [hout, hkeeps.trans htask, Option.bind_some, hcypher]
      rfl

end Generic

/-! ## Two known keys -/

namespace Sample

/-- A seed, the SHA-512 digest of it and the public key. -/
structure Vector where
  seed : Bytes
  digest : Bytes
  pub : Bytes

def first : Vector where
  seed := [157, 97, 177, 157, 239, 253, 90, 96, 186, 132, 74, 244, 146, 236, 44, 196, 68, 73, 197,
    105, 123, 50, 105, 25, 112, 59, 172, 3, 28, 174, 127, 96]
  digest := [53, 124, 131, 134, 79, 40, 51, 203, 66, 122, 46, 241, 192, 10, 1, 60, 253, 255, 39,
    104, 217, 128, 192, 163, 165, 32, 240, 6, 144, 77, 233, 15, 155, 79, 10, 254, 40, 11, 116, 106,
    119, 134, 132, 231, 84, 66, 80, 32, 87, 183, 71, 58, 3, 240, 143, 150, 245, 163, 142, 146, 135,
    224, 31, 143]
  pub := [215, 90, 152, 1, 130, 177, 10, 183, 213, 75, 254, 211, 201, 100, 7, 58, 14, 225, 114,
    243, 218, 166, 35, 37, 175, 2, 26, 104, 247, 7, 81, 26]

def second : Vector where
  seed := [76, 205, 8, 155, 40, 255, 150, 218, 157, 182, 195, 70, 236, 17, 78, 15, 91, 138, 49, 159,
    53, 171, 166, 36, 218, 140, 246, 237, 79, 184, 166, 251]
  digest := [110, 189, 158, 215, 88, 130, 213, 40, 21, 169, 117, 133, 202, 244, 121, 10, 127, 108,
    107, 59, 127, 130, 28, 94, 37, 154, 36, 176, 46, 80, 46, 17, 69, 102, 132, 130, 145, 218, 202,
    242, 37, 204, 99, 222, 179, 72, 218, 49, 142, 44, 46, 23, 176, 11, 129, 96, 249, 206, 107, 250,
    4, 114, 145, 29]
  pub := [61, 64, 23, 195, 232, 67, 137, 90, 146, 183, 10, 167, 77, 27, 126, 188, 156, 152, 44, 207,
    46, 196, 150, 140, 192, 205, 85, 241, 42, 244, 102, 12]

def sha512 (b : Bytes) : Bytes :=
  if b = first.seed then first.digest
  else if b = second.seed then second.digest
  else List.replicate 64 0

def mulBase (scalar : Bytes) : Bytes :=
  if scalar = clamp (first.digest.take 32) then first.pub
  else if scalar = clamp (second.digest.take 32) then second.pub
  else scalar

/-- Only the secret of the key opens the box. -/
def opensWith (pub box : Bytes) : Option Bytes :=
  if pub <+: box then some (box.drop pub.length) else none

/-- Sixty-four bytes, two coordinates. -/
abbrev Point := { b : Bytes // b.length = 64 }

def point (b : Bytes) : Option Point := if h : b.length = 64 then some ⟨b, h⟩ else none

/-- Hashing and the curve at the two keys, base58 as it is, and symbolic boxes. -/
scoped instance libraries : Libraries where
  bs58Encode := Base58.encode
  bs58Decode := Base58.decode
  sha512 := sha512
  EdKeypair := Bytes
  edSecret := id
  edPublic seed := mulBase (clamp ((sha512 seed).take 32))
  SecpKeypair := Point
  secpSecret k := k.val
  SecpPublic := Point
  secpPublic := id
  secpEncode k := 2 :: k.val
  secpDecode b := point b.tail
  secpEncodeUncompressed k := 4 :: k.val
  EdPublicKey := Bytes
  EdSecretKey := Bytes
  edPublicFromBytes := some
  edSecretFromBytes := some
  edEncrypt _ pub plain := some (pub ++ plain)
  edDecrypt secret c := opensWith (mulBase secret) c
  EthSecret := Point
  ethSecretFromSlice := point
  ethEncrypt _ pub _ plain := some (pub ++ plain)
  ethDecrypt secret _ c := opensWith secret.val c

theorem opensWith_append (pub plain : Bytes) : opensWith pub (pub ++ plain) = some plain := by
  rw [opensWith, if_pos (List.prefix_append ..), List.drop_left]

theorem point_val (k : Point) : point k.val = some k := dif_pos k.property

theorem laws : Laws mulBase fun secret : Point => secret.val where
  bs58Decode_encode := Base58.decode_encode
  length_sha512 b := by
    change (sha512 b).length = 64
    unfold sha512
    split
    · rfl
    · split <;> rfl
  edPublic_eq _ := rfl
  edSecretFromBytes _ _ := rfl
  edPublicFromBytes _ _ := rfl
  edDecrypt_encrypt b secret pub hsecret hpub rand plain := by
    obtain rfl := Option.some.inj hsecret
    obtain rfl := Option.some.inj hpub
    exact ⟨_, rfl, opensWith_append ..⟩
  secpDecode_encode := point_val
  length_rawPublic secret := secret.property
  secpSecret_eq k := ⟨k, point_val k, rfl⟩
  ethDecrypt_encrypt secret rand mac plain := ⟨_, rfl, opensWith_append ..⟩

/-- A keypair by its public key. -/
def view (k : Ideal.Keypair) : Keypair :=
  .ed25519 (if k.pub = first.pub then first.seed else second.seed)

scoped instance service : Crypto := { Ideal.crypto with
  kind := fun k => (view k).kind
  publicBytes := fun k => (view k).publicBytes
  eciesDecrypt := fun k => eciesDecrypt (view k)
  eciesEncrypt := eciesEncrypt
  eciesEd25519Decrypt := fun k => eciesEd25519Decrypt (view k)
  eciesEd25519Encrypt := eciesEd25519Encrypt }

theorem provides : Provides view := ⟨fun _ => rfl, fun _ => rfl, fun _ => rfl, fun _ => rfl,
  fun _ _ _ => rfl, fun _ _ _ => rfl, fun _ _ => rfl, fun _ _ => rfl⟩

def caller : Node := ⟨(⟨.ed25519, first.pub⟩ : Ideal.Keypair), none, none⟩

def callee : Node := ⟨(⟨.ed25519, second.pub⟩ : Ideal.Keypair), none, none⟩

def whitenoiseId (v : Vector) : String := "0" ++ Base58.encode v.pub

/-- The first key dials the second one. -/
theorem negotiation_reaches_second :
    ∃ composit,
      caller.dial (whitenoiseId second) = (do
        let now ← Prog.call Act.now
        let sessionId := Node.generateSessionId (whitenoiseId second) (whitenoiseId first) now
        Prog.write (Node.putTask sessionId composit)
        caller.enterCircuit (whitenoiseId second) (whitenoiseId first) sessionId) ∧
      ∀ (n : Negotiate) (sid : String) (s : Shared), s.circuitTask sid = some composit →
        ∀ (entry : PeerId) (request : Request),
          request.reqtype = Reqtype.negPlainText.toI32 →
          Codec.decode request.data = some (⟨sid, Codec.encode n⟩ : NegPlaintext) →
          Acknowledges caller (KeepsTask sid) s entry request fun cypher =>
            ∀ (s' : Shared) (access : PeerId) (request' : Request) (decrypt : Decrypt),
              request'.reqtype = Reqtype.decryptGossip.toI32 →
              Codec.decode request'.data = some decrypt → decrypt.cypher = cypher →
              Acknowledges callee (fun _ _ => True) s' access request' (· = Codec.encode n) :=
  negotiation_reaches_dialed_key provides laws (by decide +kernel) (by decide +kernel)

end Sample

end WhiteNoise.Account
