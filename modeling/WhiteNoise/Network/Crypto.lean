import WhiteNoise.Network.Session

/-! # Hashes, identities and the Noise protocol

What the code uses of the cryptographic libraries, as a parameter of the
development. An operation that can fail returns an option.
-/

namespace WhiteNoise

open Wire

/-- The kinds of identity keypair. -/
inductive KeyKind where
  | ed25519 | secp256k1 | other
  deriving DecidableEq

class Crypto where
  sha256 : Bytes → Bytes
  bs58Encode : Bytes → String
  bs58Decode : String → Option Bytes
  /-- `PeerId::from_bytes` -/
  peerIdFromBytes : Bytes → Option PeerId
  /-- `identity::Keypair` -/
  Keypair : Type
  kind : Keypair → KeyKind
  /-- `keypair.public().into_peer_id()` -/
  peerId : Keypair → PeerId
  /-- `public().encode()` of the key itself, without its kind -/
  publicBytes : Keypair → Bytes
  eciesDecrypt : Keypair → Bytes → Option Bytes
  eciesEncrypt : Bytes → Bytes → Bytes → Option Bytes
  eciesEd25519Decrypt : Keypair → Bytes → Option Bytes
  eciesEd25519Encrypt : Bytes → Bytes → Bytes → Option Bytes
  /-- `identity::PublicKey` -/
  PublicKey : Type
  fromProtobufEncoding : Bytes → Option PublicKey
  verify : PublicKey → Bytes → Bytes → Bool
  /-- `noise::AuthenticKeypair`, an X25519 keypair with the identity that signs it -/
  NoiseKeys : Type
  intoAuthentic : Bytes → Keypair → Option NoiseKeys
  noisePublic : NoiseKeys → Bytes
  identityKey : NoiseKeys → Bytes
  identitySig : NoiseKeys → Option Bytes
  identityVerify : NoiseKeys → Bytes → Bytes → Bool
  /-- `snow::HandshakeState` of the pattern XX -/
  Handshake : Type
  buildInitiator : NoiseKeys → Option Handshake
  buildResponder : NoiseKeys → Option Handshake
  writeMessage : Bytes → Handshake → Bytes → Option (Handshake × Bytes)
  readMessage : Handshake → Bytes → Option (Handshake × Bytes)
  getRemoteStatic : Handshake → Option Bytes
  /-- `snow::TransportState` -/
  Transport : Type
  intoTransportMode : Handshake → Option Transport
  transportWrite : Transport → Bytes → Option (Transport × Bytes)
  /-- `read_message` into a buffer of the given length -/
  transportRead : Transport → Bytes → ℕ → Option (Transport × Bytes)

end WhiteNoise
