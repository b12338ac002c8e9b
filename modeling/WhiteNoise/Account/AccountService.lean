import WhiteNoise.Network.Node

/-! # The account service

A client is known by its public key behind a character for the kind of the key.
What is encrypted under that key is opened with the secret key, which for
Ed25519 is derived from the seed once more.
-/

namespace WhiteNoise.Account

open Wire

/-- The libraries behind the accounts. An operation that can fail returns an option; the bytes that
come first are the randomness of an encryption. -/
class Libraries where
  bs58Encode : Bytes → String
  bs58Decode : String → Option Bytes
  sha512 : Bytes → Bytes
  /-- `identity::ed25519::Keypair` -/
  EdKeypair : Type
  /-- `secret().as_ref()` -/
  edSecret : EdKeypair → Bytes
  /-- `public().encode()` -/
  edPublic : EdKeypair → Bytes
  /-- `identity::secp256k1::Keypair` -/
  SecpKeypair : Type
  /-- `secret().to_bytes()` -/
  secpSecret : SecpKeypair → Bytes
  /-- `identity::secp256k1::PublicKey` -/
  SecpPublic : Type
  secpPublic : SecpKeypair → SecpPublic
  secpEncode : SecpPublic → Bytes
  secpDecode : Bytes → Option SecpPublic
  secpEncodeUncompressed : SecpPublic → Bytes
  /-- `ecies_ed25519` -/
  EdPublicKey : Type
  EdSecretKey : Type
  edPublicFromBytes : Bytes → Option EdPublicKey
  edSecretFromBytes : Bytes → Option EdSecretKey
  edEncrypt : Bytes → EdPublicKey → Bytes → Option Bytes
  edDecrypt : EdSecretKey → Bytes → Option Bytes
  /-- `eth_ecies` -/
  EthSecret : Type
  ethSecretFromSlice : Bytes → Option EthSecret
  ethEncrypt : Bytes → Bytes → Bytes → Bytes → Option Bytes
  ethDecrypt : EthSecret → Bytes → Bytes → Option Bytes

variable [Libraries]

/-- `identity::Keypair` -/
inductive Keypair where
  | ed25519 (k : Libraries.EdKeypair)
  | secp256k1 (k : Libraries.SecpKeypair)
  | other

def Keypair.kind : Keypair → KeyKind
  | ed25519 _ => .ed25519
  | secp256k1 _ => .secp256k1
  | other => .other

/-- `public().encode()`, for the two kinds of key that are supported -/
def Keypair.publicBytes : Keypair → Bytes
  | ed25519 k => Libraries.edPublic k
  | secp256k1 k => Libraries.secpEncode (Libraries.secpPublic k)
  | other => []

def fromKeypairToWhitenoiseId : Keypair → Option String
  | .ed25519 k => some ("0" ++ Libraries.bs58Encode (Libraries.edPublic k))
  | .secp256k1 k => some ("1" ++ Libraries.bs58Encode (Libraries.secpEncode (Libraries.secpPublic k)))
  | .other => none

def fromKeypairToSecretkeyBytes : Keypair → Option Bytes
  | .secp256k1 k => some (Libraries.secpSecret k)
  | _ => none

def eciesEncrypt (rand pubBytes plain : Bytes) : Option Bytes := do
  let secpPubKey ← Libraries.secpDecode pubBytes
  let serialized := Libraries.secpEncodeUncompressed secpPubKey
  let publicKey := (serialized.take 65).drop 1
  Libraries.ethEncrypt rand publicKey [] plain

def eciesEd25519Encrypt (rand pubBytes plain : Bytes) : Option Bytes := do
  let pub ← Libraries.edPublicFromBytes pubBytes
  Libraries.edEncrypt rand pub plain

def eciesDecrypt (keypair : Keypair) (encrypted : Bytes) : Option Bytes := do
  let secretKey ← fromKeypairToSecretkeyBytes keypair
  let secret ← Libraries.ethSecretFromSlice secretKey
  Libraries.ethDecrypt secret [] encrypted

/-- The bits that are cleared and set in the lower half of the hash, in the order of the code. -/
def mask (lower : Bytes) : Bytes :=
  let lower := lower.modify 0 (· &&& 248)
  let lower := lower.modify 31 (· &&& 63)
  let lower := lower.modify 31 (· ||| 64)
  let lower := lower.modify 0 (· &&& 248)
  let lower := lower.modify 31 (· &&& 127)
  lower.modify 31 (· ||| 64)

def eciesEd25519Decrypt (keypair : Keypair) (encrypted : Bytes) : Option Bytes :=
  match keypair with
  | .ed25519 k => do
    let hash := Libraries.sha512 (Libraries.edSecret k)
    let secret ← Libraries.edSecretFromBytes (mask (hash.take 32))
    Libraries.edDecrypt secret encrypted
  | _ => none

/-! ## What the libraries guarantee -/

/-- A scalar of the curve has its three lowest bits cleared, the highest one too, and the one below
it set. -/
def clamp (scalar : Bytes) : Bytes :=
  ((scalar.modify 0 (· &&& 248)).modify 31 (· &&& 127)).modify 31 (· ||| 64)

/-- Encodings have inverses, an Ed25519 public key is the clamped half of the hash of its seed times
the base point, and what is encrypted under the public key of a secret is opened with the secret. A
public key of `eth_ecies` is the two coordinates, and the encoding of one for `secp256k1` has them
behind a byte. -/
structure Laws (mulBase : Bytes → Bytes) (rawPublic : Libraries.EthSecret → Bytes) : Prop where
  bs58Decode_encode : ∀ b, Libraries.bs58Decode (Libraries.bs58Encode b) = some b
  length_sha512 : ∀ b, (Libraries.sha512 b).length = 64
  edPublic_eq : ∀ k, Libraries.edPublic k =
    mulBase (clamp ((Libraries.sha512 (Libraries.edSecret k)).take 32))
  edSecretFromBytes : ∀ b, b.length = 32 → (Libraries.edSecretFromBytes b).isSome
  edPublicFromBytes : ∀ b, b.length = 32 → (Libraries.edPublicFromBytes (mulBase b)).isSome
  edDecrypt_encrypt : ∀ b secret pub, Libraries.edSecretFromBytes (clamp b) = some secret →
    Libraries.edPublicFromBytes (mulBase (clamp b)) = some pub →
    ∀ rand plain, ∃ c, Libraries.edEncrypt rand pub plain = some c ∧
      Libraries.edDecrypt secret c = some plain
  secpDecode_encode : ∀ k, Libraries.secpDecode (Libraries.secpEncode k) = some k
  length_rawPublic : ∀ secret, (rawPublic secret).length = 64
  secpSecret_eq : ∀ k, ∃ secret,
    Libraries.ethSecretFromSlice (Libraries.secpSecret k) = some secret ∧
      Libraries.secpEncodeUncompressed (Libraries.secpPublic k) = 4 :: rawPublic secret
  ethDecrypt_encrypt : ∀ secret rand mac plain, ∃ c,
    Libraries.ethEncrypt rand (rawPublic secret) mac plain = some c ∧
      Libraries.ethDecrypt secret mac c = some plain

/-! ## Keys -/

omit [Libraries] in
/-- The two passes over the first byte are one. -/
theorem mask_first (x : UInt8) : x &&& 248 &&& 248 = x &&& 248 := by
  rw [UInt8.and_assoc]
  rfl

omit [Libraries] in
/-- The sixth bit is cleared and set again, the seventh is cleared in both ways. -/
theorem mask_last (x : UInt8) : ((x &&& 63 ||| 64) &&& 127) ||| 64 = (x &&& 127) ||| 64 := by
  obtain ⟨x⟩ := x
  apply congrArg UInt8.ofBitVec
  revert x
  decide +kernel

omit [Libraries] in
/-- The masks of the code come to the clamping of a scalar. -/
theorem mask_eq_clamp (lower : Bytes) : mask lower = clamp lower := by
  apply List.ext_getElem?
  intro i
  simp only [mask, clamp, List.getElem?_modify, Option.map_eq_map, Option.map_map]
  congr 1
  funext x
  by_cases h0 : i = 0
  · subst h0
    simp [mask_first]
  · by_cases h31 : i = 31
    · subst h31
      simp [mask_last]
    · simp [Ne.symm h0, Ne.symm h31]

omit [Libraries] in
theorem length_clamp (b : Bytes) : (clamp b).length = b.length := by
  simp [clamp]

variable {mulBase : Bytes → Bytes} {rawPublic : Libraries.EthSecret → Bytes}

/-- The secret that the seed is hashed to is the one behind the public key. -/
theorem eciesEd25519Decrypt_encrypt (h : Laws mulBase rawPublic) (k : Libraries.EdKeypair)
    (rand plain : Bytes) :
    ∃ c, eciesEd25519Encrypt rand (Libraries.edPublic k) plain = some c ∧
      eciesEd25519Decrypt (.ed25519 k) c = some plain := by
  have hlength : (clamp ((Libraries.sha512 (Libraries.edSecret k)).take 32)).length = 32 := by
    rw [length_clamp, List.length_take, h.length_sha512]
    rfl
  obtain ⟨secret, hsecret⟩ := Option.isSome_iff_exists.mp (h.edSecretFromBytes _ hlength)
  obtain ⟨pub, hpub⟩ := Option.isSome_iff_exists.mp (h.edPublicFromBytes _ hlength)
  obtain ⟨c, henc, hdec⟩ := h.edDecrypt_encrypt _ secret pub hsecret hpub rand plain
  refine ⟨c, ?_, ?_⟩
  · rw [h.edPublic_eq, eciesEd25519Encrypt, hpub]
    exact henc
  · rw [eciesEd25519Decrypt, mask_eq_clamp, hsecret]
    exact hdec

/-- The coordinates behind the first byte are the public key of the secret. -/
theorem eciesDecrypt_encrypt (h : Laws mulBase rawPublic) (k : Libraries.SecpKeypair)
    (rand plain : Bytes) :
    ∃ c, eciesEncrypt rand (Libraries.secpEncode (Libraries.secpPublic k)) plain = some c ∧
      eciesDecrypt (.secp256k1 k) c = some plain := by
  obtain ⟨secret, hsecret, hraw⟩ := h.secpSecret_eq k
  obtain ⟨c, henc, hdec⟩ := h.ethDecrypt_encrypt secret rand [] plain
  have hslice : ((4 :: rawPublic secret).take 65).drop 1 = rawPublic secret := by
    rw [List.take_succ_cons, List.drop_one, List.tail_cons, List.take_of_length_le]
    exact (h.length_rawPublic secret).le
  refine ⟨c, ?_, ?_⟩
  · rw [eciesEncrypt, h.secpDecode_encode]
    simp only [Option.bind_eq_bind, Option.bind_some, hraw, hslice]
    exact henc
  · rw [eciesDecrypt, fromKeypairToSecretkeyBytes]
    simp only [Option.bind_eq_bind, Option.bind_some, hsecret]
    exact hdec

end WhiteNoise.Account
