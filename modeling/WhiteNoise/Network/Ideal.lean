import WhiteNoise.Network.Crypto
import WhiteNoise.Wire.Sha256
import WhiteNoise.Wire.Base58

/-! # An ideal instance of the cryptography

SHA-256, base58 and peer identities as they are; encryption, signatures and
the Noise handshake as symbolic values that only their owner opens.
-/

namespace WhiteNoise.Ideal

open Wire

/-- An identity keypair, by its public key. -/
structure Keypair where
  kind : KeyKind
  pub : Bytes
  deriving DecidableEq

/-- The protocol buffer encoding of a public key. -/
def Keypair.protobuf (k : Keypair) : Bytes :=
  match k.kind with
  | .ed25519 => [8, 1, 18, 32] ++ k.pub
  | .secp256k1 => [8, 2, 18, 33] ++ k.pub
  | .other => [8, 0, 18] ++ k.pub

/-- A short key is its own identity multihash. -/
def Keypair.peerId (k : Keypair) : PeerId :=
  ⟨Base58.encode ([0, UInt8.ofNat k.protobuf.length] ++ k.protobuf)⟩

/-- An identity multihash of at most 42 bytes or a SHA-256 multihash. -/
def peerIdFromBytes (b : Bytes) : Option PeerId :=
  match b with
  | 0 :: n :: d => if d.length = n.toNat ∧ n.toNat ≤ 42 then some ⟨Base58.encode b⟩ else none
  | 18 :: 32 :: d => if d.length = 32 then some ⟨Base58.encode b⟩ else none
  | _ => none

/-- Only the owner of the key opens the box. -/
def decrypt (k : Keypair) (box : Bytes) : Option Bytes :=
  if k.pub <+: box then some (box.drop k.pub.length) else none

def encrypt (_rand pub msg : Bytes) : Option Bytes := some (pub ++ msg)

def sign (k : Keypair) (msg : Bytes) : Bytes := k.protobuf ++ msg

/-- The static Noise key and the identity that signs it. -/
structure NoiseKeys where
  pub : Bytes
  identity : Keypair
  deriving DecidableEq

def staticPrefix : Bytes := utf8 "noise-libp2p-static-key:"

/-- A party of the pattern XX after `turn` messages. -/
structure Handshake where
  initiator : Bool
  keys : NoiseKeys
  remoteStatic : Option Bytes
  turn : ℕ
  deriving DecidableEq

/-- The initiator writes the first and the third message. -/
def Handshake.writes (h : Handshake) : Bool :=
  h.turn < 3 && (h.initiator == (h.turn % 2 == 0))

def Handshake.reads (h : Handshake) : Bool :=
  h.turn < 3 && !h.writes

/-- The first message begins with a byte for the ephemeral key; the second and the third carry
the static key of their sender. -/
def Handshake.write (h : Handshake) (payload : Bytes) : Option (Handshake × Bytes) :=
  if h.writes then
    let key := if h.turn = 0 then [0] else UInt8.ofNat h.keys.pub.length :: h.keys.pub
    some ({ h with turn := h.turn + 1 }, key ++ payload)
  else none

def Handshake.read (h : Handshake) (msg : Bytes) : Option (Handshake × Bytes) :=
  if h.reads then
    match msg with
    | [] => none
    | n :: rest =>
      if h.turn = 0 then some ({ h with turn := 1 }, rest) else
      if n.toNat ≤ rest.length then
        some ({ h with remoteStatic := some (rest.take n.toNat), turn := h.turn + 1 },
          rest.drop n.toNat)
      else none
  else none

/-- Take the tag of sixteen zeros off, if there is room for the text. -/
def Handshake.readText (h : Handshake) (msg : Bytes) (room : ℕ) : Option (Handshake × Bytes) :=
  let text := msg.take (msg.length - 16)
  if msg.length ≤ 65535 ∧ msg = text ++ List.replicate 16 0 ∧ text.length ≤ room then
    some (h, text)
  else none

instance (priority := low) crypto : Crypto where
  sha256 := Sha256.digest
  bs58Encode := Base58.encode
  bs58Decode := Base58.decode
  peerIdFromBytes := peerIdFromBytes
  Keypair := Keypair
  kind := Keypair.kind
  peerId := Keypair.peerId
  publicBytes := Keypair.pub
  eciesDecrypt := decrypt
  eciesEncrypt := encrypt
  eciesEd25519Decrypt := decrypt
  eciesEd25519Encrypt := encrypt
  PublicKey := Bytes
  fromProtobufEncoding b := if [8, 1, 18, 32] <+: b ∧ b.length = 36 then some b else none
  verify pub msg sig := sig == pub ++ msg
  NoiseKeys := NoiseKeys
  intoAuthentic seed k := some ⟨seed, k⟩
  noisePublic := NoiseKeys.pub
  identityKey k := k.identity.protobuf
  identitySig k := some (sign k.identity (staticPrefix ++ k.pub))
  identityVerify k msg sig := sig == sign k.identity msg
  Handshake := Handshake
  buildInitiator k := some ⟨true, k, none, 0⟩
  buildResponder k := some ⟨false, k, none, 0⟩
  writeMessage _ := Handshake.write
  readMessage := Handshake.read
  getRemoteStatic := Handshake.remoteStatic
  Transport := Handshake
  intoTransportMode h := if h.turn = 3 then some h else none
  transportWrite h msg := if msg.length ≤ 65519 then some (h, msg ++ List.replicate 16 0) else none
  transportRead := Handshake.readText

end WhiteNoise.Ideal
