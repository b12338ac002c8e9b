import Mathlib.Algebra.Order.Ring.Nat
import Mathlib.Data.Nat.Notation
import Mathlib.Tactic.Common

/-! # Base 128 integers

Seven payload bits a byte, least significant group first; the high bit marks
every byte but the last. The encoding is canonical, prefix-free and monotone
in length.
-/

namespace WhiteNoise.Wire

/-- Byte strings. -/
abbrev Bytes := List UInt8

namespace Varint

/-- The groups of `n`, at most `k + 1` of them. -/
def groups : ℕ → ℕ → Bytes
  | 0, n => [UInt8.ofNat n]
  | k + 1, n =>
    if n < 128 then [UInt8.ofNat n]
    else UInt8.ofNat (n % 128 + 128) :: groups k (n / 128)

/-- The canonical encoding. A number has fewer groups than its value. -/
def encode (n : ℕ) : Bytes := groups n n

/-- Read one integer and return the bytes after it. -/
def decode : Bytes → Option (ℕ × Bytes)
  | [] => none
  | b :: bs =>
    if b.toNat < 128 then some (b.toNat, bs)
    else match decode bs with
      | none => none
      | some (n, rest) => some (b.toNat - 128 + 128 * n, rest)

theorem toNat_ofNat {n : ℕ} (h : n < 256) : (UInt8.ofNat n).toNat = n := by
  rw [UInt8.toNat_ofNat']; omega

theorem decode_groups {k n : ℕ} (h : n ≤ k) (rest : Bytes) :
    decode (groups k n ++ rest) = some (n, rest) := by
  induction k generalizing n with
  | zero =>
    obtain rfl : n = 0 := by omega
    rfl
  | succ k ih =>
    unfold groups
    split
    · next hn =>
      have hb := toNat_ofNat (show n < 256 by omega)
      simp only [List.cons_append, List.nil_append, decode, hb, if_pos hn]
    · next hn =>
      have hb := toNat_ofNat (show n % 128 + 128 < 256 by omega)
      have hlt : ¬ n % 128 + 128 < 128 := by omega
      simp only [List.cons_append, decode, hb, if_neg hlt, ih (show n / 128 ≤ k by omega)]
      congr 2
      omega

theorem decode_encode (n : ℕ) (rest : Bytes) : decode (encode n ++ rest) = some (n, rest) :=
  decode_groups (Nat.le_refl n) rest

/-- Bytes of the canonical encoding. -/
def size (n : ℕ) : ℕ := (encode n).length

theorem groups_eq_of_le {k n : ℕ} (h : n ≤ k) : groups k n = encode n := by
  induction n using Nat.strongRecOn generalizing k with
  | ind n ih =>
    cases n with
    | zero => cases k <;> rfl
    | succ n =>
      obtain ⟨k, rfl⟩ : ∃ j, k = j + 1 := ⟨k - 1, by omega⟩
      unfold encode groups
      split
      · rfl
      · rw [ih ((n + 1) / 128) (by omega) (by omega), ih ((n + 1) / 128) (by omega) (by omega)]

theorem encode_of_lt {n : ℕ} (h : n < 128) : encode n = [UInt8.ofNat n] := by
  unfold encode
  cases n with
  | zero => rfl
  | succ n => rw [groups, if_pos h]

theorem encode_of_le {n : ℕ} (h : 128 ≤ n) :
    encode n = UInt8.ofNat (n % 128 + 128) :: encode (n / 128) := by
  obtain ⟨k, rfl⟩ : ∃ j, n = j + 1 := ⟨n - 1, by omega⟩
  rw [encode, groups, if_neg (by omega), groups_eq_of_le (by omega)]

theorem size_of_lt {n : ℕ} (h : n < 128) : size n = 1 := by simp [size, encode_of_lt h]

theorem size_of_le {n : ℕ} (h : 128 ≤ n) : size n = size (n / 128) + 1 := by
  simp [size, encode_of_le h]

theorem size_pos (n : ℕ) : 0 < size n := by
  rcases Nat.lt_or_ge n 128 with h | h
  · simp [size_of_lt h]
  · simp [size_of_le h]

theorem size_two {n : ℕ} (h : 128 ≤ n) (h' : n < 16384) : size n = 2 := by
  rw [size_of_le h, size_of_lt (by omega)]

theorem size_mono {m n : ℕ} (h : m ≤ n) : size m ≤ size n := by
  induction n using Nat.strongRecOn generalizing m with
  | ind n ih =>
    rcases Nat.lt_or_ge m 128 with hm | hm
    · rw [size_of_lt hm]
      exact size_pos n
    · rw [size_of_le hm, size_of_le (by omega : 128 ≤ n)]
      exact Nat.succ_le_succ (ih (n / 128) (by omega) (by omega))

/-- No encoding is shorter than the canonical one. -/
theorem size_le_of_decode {b rest : Bytes} {n : ℕ} (h : decode b = some (n, rest)) :
    size n + rest.length ≤ b.length := by
  induction b generalizing n with
  | nil => cases h
  | cons d b ih =>
    have hd := d.toNat_lt
    rw [decode] at h
    split at h
    · next hlt =>
      cases h
      rw [size_of_lt hlt, List.length_cons]
      omega
    · split at h
      · cases h
      · next m rest' hm =>
        cases h
        have hb := ih hm
        have hsize : size (d.toNat - 128 + 128 * m) ≤ size m + 1 := by
          rcases Nat.lt_or_ge (d.toNat - 128 + 128 * m) 128 with hlt | hge
          · rw [size_of_lt hlt]
            exact Nat.succ_le_succ (Nat.zero_le _)
          · have hm : (d.toNat - 128 + 128 * m) / 128 = m := by omega
            exact Nat.le_of_eq (by rw [size_of_le hge, hm])
        rw [List.length_cons]
        omega

/-- A proper part of an encoding decodes to nothing. -/
theorem decode_part {part : Bytes} {n : ℕ} (h : part <+: encode n) (hne : part ≠ encode n) :
    decode part = none := by
  induction part generalizing n with
  | nil => rfl
  | cons d part ih =>
    rcases Nat.lt_or_ge n 128 with hn | hn
    · rw [encode_of_lt hn] at h hne
      obtain ⟨rfl, hp⟩ := List.cons_prefix_cons.mp h
      obtain rfl := List.prefix_nil.mp hp
      exact absurd rfl hne
    · rw [encode_of_le hn] at h hne
      obtain ⟨rfl, hp⟩ := List.cons_prefix_cons.mp h
      have hb := toNat_ofNat (show n % 128 + 128 < 256 by omega)
      rw [decode, hb, if_neg (by omega), ih hp fun he => hne (by rw [he])]

end Varint

end WhiteNoise.Wire
