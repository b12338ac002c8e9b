import WhiteNoise.Network.Node
import WhiteNoise.Network.Ideal

/-! # Session identifiers

A session is named by the digest of the two identities and the time, one behind
the other with nothing in between. An Ed25519 identity begins with the only
zero of its text, and a Secp256k1 identity has one of two lengths of which only
one fits, so it can be read where the second identity begins.
-/

namespace WhiteNoise.SessionId

open Wire

/-! ## Two identities in one text -/

/-- The text of an identity: a character for the kind of the key, then the key in base 58. -/
inductive IdText : List Char → Prop
  | ed25519 {b : List Char} (hzero : '0' ∉ b) : IdText ('0' :: b)
  | secp256k1 {b : List Char} (hzero : '0' ∉ b) (hone : b.head? ≠ some '1') (hmin : 44 ≤ b.length)
      (hmax : b.length ≤ 45) : IdText ('1' :: b)

variable {l l' r r' t : List Char}

theorem IdText.ne_nil (h : IdText l) : l ≠ [] := by
  cases h <;> exact List.cons_ne_nil _ _

/-- A zero is the first character. -/
theorem IdText.zero_notMem (h : IdText (l ++ t)) (hl : l ≠ []) : '0' ∉ t := by
  obtain ⟨c, l, rfl⟩ := List.exists_cons_of_ne_nil hl
  intro ht
  cases h with
  | ed25519 hzero => exact hzero (List.mem_append_right _ ht)
  | secp256k1 hzero => exact hzero (List.mem_append_right _ ht)

/-- What the first identity has at its end is not the beginning of the second one. -/
theorem IdText.eq_nil (hl : IdText l) (hlt : IdText (l ++ t)) (hr : IdText r)
    (htr : IdText (t ++ r)) : t = [] := by
  by_contra ht
  have hzero : '0' ∉ r := htr.zero_notMem ht
  cases hr with
  | ed25519 => exact hzero List.mem_cons_self
  | @secp256k1 b _ _ hmin _ =>
    obtain ⟨c, t, rfl⟩ := List.exists_cons_of_ne_nil ht
    rw [List.cons_append] at htr
    generalize hb' : t ++ '1' :: b = b' at htr
    cases htr with
    | ed25519 => exact hlt.zero_notMem hl.ne_nil List.mem_cons_self
    | secp256k1 _ hone _ hmax =>
      -- the second one is longer by one at most, so it would begin with two ones
      have hlen : t = [] := by
        rw [← hb', List.length_append, List.length_cons] at hmax
        exact List.eq_nil_of_length_eq_zero (by omega)
      rw [hlen] at hb'
      exact hone (hb' ▸ rfl)

/-- Two identities, one behind the other, are read in one way only. -/
theorem IdText.append_inj (hl : IdText l) (hl' : IdText l') (hr : IdText r) (hr' : IdText r')
    (h : l ++ r = l' ++ r') : l = l' ∧ r = r' := by
  rcases List.append_eq_append_iff.mp h with ⟨t, rfl, rfl⟩ | ⟨t, rfl, rfl⟩
  · obtain rfl := IdText.eq_nil hl hl' hr' hr
    simp
  · obtain rfl := IdText.eq_nil hl' hl hr hr'
    simp

/-! ## The bytes that are hashed -/

/-- The value of the last `k` bytes of a number, most significant first. -/
theorem value_bigEndian (n k : ℕ) :
    Base58.value ((List.range k).map fun i => UInt8.ofNat (n / 256 ^ (k - 1 - i))) = n % 256 ^ k := by
  induction k generalizing n with
  | zero => simp [Base58.value, Nat.mod_one]
  | succ k ih =>
    have hinit : ((List.range k).map fun i => UInt8.ofNat (n / 256 ^ (k + 1 - 1 - i))) =
        (List.range k).map fun i => UInt8.ofNat (n / 256 / 256 ^ (k - 1 - i)) := by
      refine List.map_congr_left fun i hi => ?_
      have hexp : k + 1 - 1 - i = k - 1 - i + 1 := by
        have hlt := List.mem_range.mp hi
        omega
      rw [hexp, Nat.pow_succ', Nat.div_div_eq_div_mul]
    rw [List.range_succ, List.map_append, hinit, Base58.value, List.foldl_append, ← Base58.value, ih,
      Nat.pow_succ', Nat.mod_mul]
    simp [Nat.add_comm]

/-- The eight bytes are the time. -/
theorem value_bytesOfMicros {n : ℕ} (h : n < 2 ^ 64) : Base58.value (Node.bytesOfMicros n) = n := by
  have hpow : 256 ^ 8 = 2 ^ 64 := by norm_num
  rw [Node.bytesOfMicros, value_bigEndian n 8, hpow, Nat.mod_eq_of_lt h]

theorem utf8_append (a b : String) : utf8 (a ++ b) = utf8 a ++ utf8 b := by
  simp [utf8, String.toByteArray_append]

theorem utf8_injective : Function.Injective utf8 := by
  rintro a b h
  exact Option.some.inj ((ofUtf8_utf8 a).symm.trans ((congrArg ofUtf8 h).trans (ofUtf8_utf8 b)))

/-- The identities and the time are read off the bytes. -/
theorem hashed_inj {local' local'' remote remote' : String} {now now' : ℕ}
    (hl : IdText local'.toList) (hl' : IdText local''.toList) (hr : IdText remote.toList)
    (hr' : IdText remote'.toList) (hn : now < 2 ^ 64) (hn' : now' < 2 ^ 64)
    (h : utf8 local' ++ utf8 remote ++ Node.bytesOfMicros now =
      utf8 local'' ++ utf8 remote' ++ Node.bytesOfMicros now') :
    local' = local'' ∧ remote = remote' ∧ now = now' := by
  obtain ⟨hids, htime⟩ := List.append_inj' h rfl
  rw [← utf8_append, ← utf8_append] at hids
  have htext : local'.toList ++ remote.toList = local''.toList ++ remote'.toList := by
    rw [← String.toList_append, ← String.toList_append, utf8_injective hids]
  obtain ⟨hlocal, hremote⟩ := hl.append_inj hl' hr hr' htext
  refine ⟨String.toList_inj.mp hlocal, String.toList_inj.mp hremote, ?_⟩
  rw [← value_bytesOfMicros hn, ← value_bytesOfMicros hn', htime]

/-! ## The identities of keys -/

section

variable [Crypto]

/-- The encoding of the public key is that of its kind: 32 bytes, or a compressed point. -/
def Encoded (k : Crypto.Keypair) : Prop :=
  match Crypto.kind k with
  | .ed25519 => (Crypto.publicBytes k).length = 32
  | .secp256k1 => ∃ d x, Crypto.publicBytes k = d :: x ∧ x.length = 32 ∧ (d = 2 ∨ d = 3)
  | .other => False

/-- The node goes by the identity of such a key. -/
structure GoesBy (node : Node) (id : String) : Prop where
  encoded : Encoded node.keypair
  whitenoiseId : node.whitenoiseId = some id

variable {node : Node} {id : String}

theorem GoesBy.idText (hbs58 : ∀ b, Crypto.bs58Encode b = Base58.encode b) (h : GoesBy node id) :
    IdText id.toList := by
  obtain ⟨hencoded, hid⟩ := h
  rw [Node.whitenoiseId, hbs58] at hid
  rw [Encoded] at hencoded
  cases hkind : Crypto.kind node.keypair with
  | ed25519 =>
    rw [hkind] at hid
    obtain rfl := Option.some.inj hid
    rw [String.toList_append]
    exact .ed25519 (Base58.zero_notMem_encode _)
  | secp256k1 =>
    rw [hkind] at hid hencoded
    obtain ⟨d, x, hpub, hx, hd⟩ := hencoded
    obtain rfl := Option.some.inj hid
    rw [String.toList_append, hpub]
    have hlen := Base58.length_encodeDigits_point hx hd
    have hhead : (d :: x).head? ≠ some 0 := by
      rcases hd with rfl | rfl <;> simp
    change IdText ('1' :: (Base58.encode (d :: x)).toList)
    refine .secp256k1 (Base58.zero_notMem_encode _) (Base58.head?_encode_ne hhead) ?_ ?_
    · rw [Base58.toList_encode, List.length_map]
      exact hlen.1
    · rw [Base58.toList_encode, List.length_map]
      exact hlen.2
  | other =>
    rw [hkind] at hid
    cases hid

/-- Two dials are given the same session identifier only if they are the same: the same client
dials the same one at the same time. -/
theorem session_id_unique (hbs58 : ∀ b, Crypto.bs58Encode b = Base58.encode b)
    (hsha256 : Function.Injective Crypto.sha256) {n n' m m' : Node}
    {localId localId' remoteId remoteId' : String} {now now' : ℕ} (hl : GoesBy n localId)
    (hl' : GoesBy n' localId') (hr : GoesBy m remoteId) (hr' : GoesBy m' remoteId')
    (hn : now < 2 ^ 64) (hn' : now' < 2 ^ 64) :
    Node.generateSessionId remoteId localId now = Node.generateSessionId remoteId' localId' now' ↔
      localId = localId' ∧ remoteId = remoteId' ∧ now = now' := by
  constructor
  · intro h
    simp only [Node.generateSessionId, fromBytesGetId, hbs58] at h
    exact hashed_inj (hl.idText hbs58) (hl'.idText hbs58) (hr.idText hbs58) (hr'.idText hbs58) hn hn'
      (hsha256 (Base58.encode_injective h))
  · rintro ⟨rfl, rfl, rfl⟩
    rfl

end

namespace Sample

def callerKey : Ideal.Keypair := ⟨.ed25519, List.replicate 32 7⟩

def answerKey : Ideal.Keypair := ⟨.secp256k1, 3 :: List.replicate 32 9⟩

def callerId : String := "0" ++ Base58.encode callerKey.pub

def answerId : String := "1" ++ Base58.encode answerKey.pub

/-- What is hashed for two dials, one a microsecond after the other. -/
def inputs : List Bytes :=
  [1700000000000000, 1700000000000001].map fun now =>
    utf8 callerId ++ utf8 answerId ++ Node.bytesOfMicros now

/-- SHA-256 on these inputs, and without collisions elsewhere. -/
def sha256 (b : Bytes) : Bytes :=
  if b ∈ inputs then Sha256.digest b else List.replicate 33 0 ++ b

theorem sha256_injective : Function.Injective sha256 := by
  have hdigest : ∀ a ∈ inputs, ∀ b ∈ inputs, Sha256.digest a = Sha256.digest b → a = b := by
    decide +kernel
  have hlength {a b : Bytes} : Sha256.digest a ≠ List.replicate 33 0 ++ b := by
    intro h
    have := congrArg List.length h
    rw [Sha256.length_digest, List.length_append, List.length_replicate] at this
    omega
  intro a b h
  by_cases ha : a ∈ inputs <;> by_cases hb : b ∈ inputs
  · rw [sha256, sha256, if_pos ha, if_pos hb] at h
    exact hdigest a ha b hb h
  · rw [sha256, sha256, if_pos ha, if_neg hb] at h
    exact absurd h hlength
  · rw [sha256, sha256, if_neg ha, if_pos hb] at h
    exact absurd h.symm hlength
  · rw [sha256, sha256, if_neg ha, if_neg hb] at h
    exact List.append_cancel_left h

abbrev crypto : Crypto := { Ideal.crypto with sha256 := sha256 }

def node (key : Ideal.Keypair) : @Node crypto := @Node.mk crypto key none none

theorem goesBy_caller : @GoesBy crypto (node callerKey) callerId :=
  @GoesBy.mk crypto (node callerKey) callerId rfl rfl

theorem goesBy_answer : @GoesBy crypto (node answerKey) answerId :=
  @GoesBy.mk crypto (node answerKey) answerId ⟨3, List.replicate 32 9, rfl, rfl, Or.inr rfl⟩ rfl

end Sample

theorem session_id_unique_later :
    @Node.generateSessionId Sample.crypto Sample.answerId Sample.callerId 1700000000000000 =
        @Node.generateSessionId Sample.crypto Sample.answerId Sample.callerId 1700000000000001 ↔
      Sample.callerId = Sample.callerId ∧ Sample.answerId = Sample.answerId ∧
        1700000000000000 = 1700000000000001 :=
  @session_id_unique Sample.crypto (fun _ => rfl) Sample.sha256_injective
    (Sample.node Sample.callerKey) (Sample.node Sample.callerKey) (Sample.node Sample.answerKey)
    (Sample.node Sample.answerKey) Sample.callerId Sample.callerId Sample.answerId Sample.answerId _ _
    Sample.goesBy_caller Sample.goesBy_caller Sample.goesBy_answer Sample.goesBy_answer
    (by decide) (by decide)

end WhiteNoise.SessionId
