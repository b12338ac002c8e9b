import WhiteNoise.Wire.Varint

/-! # SHA-256

The hash as executable definitions on byte lists. Only the length of a digest
is proved.
-/

namespace WhiteNoise.Wire.Sha256

def roundConstants : List UInt32 := [
  0x428a2f98, 0x71374491, 0xb5c0fbcf, 0xe9b5dba5, 0x3956c25b, 0x59f111f1, 0x923f82a4, 0xab1c5ed5,
  0xd807aa98, 0x12835b01, 0x243185be, 0x550c7dc3, 0x72be5d74, 0x80deb1fe, 0x9bdc06a7, 0xc19bf174,
  0xe49b69c1, 0xefbe4786, 0x0fc19dc6, 0x240ca1cc, 0x2de92c6f, 0x4a7484aa, 0x5cb0a9dc, 0x76f988da,
  0x983e5152, 0xa831c66d, 0xb00327c8, 0xbf597fc7, 0xc6e00bf3, 0xd5a79147, 0x06ca6351, 0x14292967,
  0x27b70a85, 0x2e1b2138, 0x4d2c6dfc, 0x53380d13, 0x650a7354, 0x766a0abb, 0x81c2c92e, 0x92722c85,
  0xa2bfe8a1, 0xa81a664b, 0xc24b8b70, 0xc76c51a3, 0xd192e819, 0xd6990624, 0xf40e3585, 0x106aa070,
  0x19a4c116, 0x1e376c08, 0x2748774c, 0x34b0bcb5, 0x391c0cb3, 0x4ed8aa4a, 0x5b9cca4f, 0x682e6ff3,
  0x748f82ee, 0x78a5636f, 0x84c87814, 0x8cc70208, 0x90befffa, 0xa4506ceb, 0xbef9a3f7, 0xc67178f2]

def rotr (x n : UInt32) : UInt32 := (x >>> n) ||| (x <<< (32 - n))

/-- The chaining value. -/
structure State where
  (a b c d e f g h : UInt32)

def State.init : State :=
  ⟨0x6a09e667, 0xbb67ae85, 0x3c6ef372, 0xa54ff53a, 0x510e527f, 0x9b05688c, 0x1f83d9ab, 0x5be0cd19⟩

def State.add (s t : State) : State :=
  ⟨s.a + t.a, s.b + t.b, s.c + t.c, s.d + t.d, s.e + t.e, s.f + t.f, s.g + t.g, s.h + t.h⟩

/-- Extend the message schedule, most recent word first, by `k` words. -/
def extend : ℕ → List UInt32 → List UInt32
  | 0, w => w
  | k + 1, w =>
    let x := w.getD 1 0
    let y := w.getD 14 0
    let s₁ := rotr x 17 ^^^ rotr x 19 ^^^ (x >>> 10)
    let s₀ := rotr y 7 ^^^ rotr y 18 ^^^ (y >>> 3)
    extend k ((s₁ + w.getD 6 0 + s₀ + w.getD 15 0) :: w)

def round (s : State) (kw : UInt32 × UInt32) : State :=
  let s₁ := rotr s.e 6 ^^^ rotr s.e 11 ^^^ rotr s.e 25
  let s₀ := rotr s.a 2 ^^^ rotr s.a 13 ^^^ rotr s.a 22
  let t₁ := s.h + s₁ + ((s.e &&& s.f) ^^^ ((~~~s.e) &&& s.g)) + kw.1 + kw.2
  let t₂ := s₀ + ((s.a &&& s.b) ^^^ (s.a &&& s.c) ^^^ (s.b &&& s.c))
  ⟨t₁ + t₂, s.a, s.b, s.c, s.d + t₁, s.e, s.f, s.g⟩

/-- Big endian words. -/
def words : Bytes → List UInt32
  | a :: b :: c :: d :: r =>
    (a.toUInt32 <<< 24 ||| b.toUInt32 <<< 16 ||| c.toUInt32 <<< 8 ||| d.toUInt32) :: words r
  | _ => []

def compress (s : State) (block : Bytes) : State :=
  let w := (extend 48 (words block).reverse).reverse
  s.add ((roundConstants.zip w).foldl round s)

def pad (m : Bytes) : Bytes :=
  m ++ [0x80] ++ List.replicate ((119 - m.length % 64) % 64) 0 ++
    (List.range 8).map fun i => UInt8.ofNat (m.length * 8 / 256 ^ (7 - i))

def blocks : ℕ → Bytes → State → State
  | 0, _, s => s
  | k + 1, m, s => blocks k (m.drop 64) (compress s (m.take 64))

def wordBytes (x : UInt32) : Bytes :=
  [(x >>> 24).toUInt8, (x >>> 16).toUInt8, (x >>> 8).toUInt8, x.toUInt8]

def digest (m : Bytes) : Bytes :=
  let padded := pad m
  let s := blocks (padded.length / 64) padded State.init
  [s.a, s.b, s.c, s.d, s.e, s.f, s.g, s.h].flatMap wordBytes

theorem length_digest (m : Bytes) : (digest m).length = 32 := by
  simp [digest, wordBytes]

end WhiteNoise.Wire.Sha256
