import Mathlib.Data.Nat.Digits.Lemmas
import WhiteNoise.Wire.Varint

/-! # Base 58 text

Each leading zero byte is the digit `1`; the rest is the number the bytes are
in base 256, written in base 58. The text is read back to the bytes, and
thirty-two bytes take at most 44 digits, a compressed point 44 or 45.
-/

namespace WhiteNoise.Wire.Base58

def alphabet : List Char := "123456789ABCDEFGHJKLMNPQRSTUVWXYZabcdefghijkmnopqrstuvwxyz".toList

/-- The number a byte string is in base 256. -/
def value (b : Bytes) : ℕ := b.foldl (fun n d => 256 * n + d.toNat) 0

/-- The digits of `n` in base `m`, at most `k` of them, most significant first. -/
def digits (m : ℕ) : ℕ → ℕ → List ℕ
  | 0, _ => []
  | k + 1, n => if n = 0 then [] else digits m k (n / m) ++ [n % m]

/-- Leading zeros, and what is behind them. -/
def zeros : Bytes → ℕ
  | [] => 0
  | d :: b => if d = 0 then zeros b + 1 else 0

def encodeDigits (b : Bytes) : List ℕ :=
  List.replicate (zeros b) 0 ++ digits 58 (2 * b.length) (value b)

def encode (b : Bytes) : String :=
  String.ofList ((encodeDigits b).map fun d => alphabet.getD d '1')

def decode (s : String) : Option Bytes := do
  let ds ← s.toList.mapM fun c => alphabet.idxOf? c
  let ones := (ds.takeWhile (· = 0)).length
  let n := ds.foldl (fun n d => 58 * n + d) 0
  some (List.replicate ones 0 ++ (digits 256 ds.length n).map UInt8.ofNat)

theorem length_digits_le {m k n j : ℕ} (h : n < m ^ j) : (digits m k n).length ≤ j := by
  induction k generalizing n j with
  | zero => exact Nat.zero_le j
  | succ k ih =>
    rw [digits]
    split
    · exact Nat.zero_le j
    · next hn =>
      cases j with
      | zero =>
        rw [Nat.pow_zero] at h
        omega
      | succ j =>
        have hd : n / m < m ^ j := by
          rw [Nat.pow_succ] at h
          exact Nat.div_lt_of_lt_mul (by rwa [Nat.mul_comm])
        rw [List.length_append, List.length_singleton]
        exact Nat.succ_le_succ (ih hd)

theorem foldl_lt (b : Bytes) (n j : ℕ) (h : n < 256 ^ j) :
    b.foldl (fun n d => 256 * n + d.toNat) n < 256 ^ (j + b.length) := by
  induction b generalizing n j with
  | nil => exact h
  | cons d b ih =>
    have hd := d.toNat_lt
    have hn : 256 * n + d.toNat < 256 ^ (j + 1) := by
      rw [Nat.pow_succ]
      omega
    have hr := ih _ _ hn
    rwa [Nat.add_assoc, Nat.add_comm 1] at hr

theorem value_lt (b : Bytes) : value b < 256 ^ (b.length - zeros b) := by
  induction b with
  | nil => decide
  | cons d b ih =>
    by_cases hd : d = 0
    · have hv : value (d :: b) = value b := by simp [value, hd]
      have hz : (d :: b).length - zeros (d :: b) = b.length - zeros b := by
        rw [zeros, if_pos hd, List.length_cons]
        omega
      rw [hv, hz]
      exact ih
    · have hz : zeros (d :: b) = 0 := by rw [zeros, if_neg hd]
      have hf := foldl_lt (d :: b) 0 0 (by decide)
      rwa [hz, Nat.sub_zero, ← Nat.zero_add (d :: b).length]

theorem zeros_le (b : Bytes) : zeros b ≤ b.length := by
  induction b with
  | nil => exact Nat.le_refl 0
  | cons d b ih =>
    rw [zeros]
    split
    · exact Nat.succ_le_succ ih
    · exact Nat.zero_le _

/-- A digest takes at most 44 digits. -/
theorem length_encodeDigits_le {b : Bytes} (h : b.length = 32) : (encodeDigits b).length ≤ 44 := by
  have hz := zeros_le b
  have hv := value_lt b
  rw [h] at hz hv
  have hpow : ∀ z ≤ 32, 256 ^ (32 - z) ≤ 58 ^ (44 - z) := by decide
  have hd := length_digits_le (m := 58) (k := 2 * b.length) (Nat.lt_of_lt_of_le hv (hpow _ hz))
  rw [encodeDigits, List.length_append, List.length_replicate]
  omega

theorem utf8Size_digit (d : ℕ) : (alphabet.getD d '1').utf8Size = 1 := by
  have hlt : ∀ d < 58, (alphabet.getD d '1').utf8Size = 1 := by decide
  rcases Nat.lt_or_ge d 58 with hd | hd
  · exact hlt d hd
  · have hlen : alphabet.length = 58 := by decide
    rw [List.getD_eq_getElem?_getD, List.getElem?_eq_none (by omega)]
    rfl

/-! ## Reading back -/

/-- With room enough, the digits are those of `Nat.digits`, most significant first. -/
theorem digits_eq {m k n : ℕ} (hm : 1 < m) (h : n < m ^ k) :
    digits m k n = (Nat.digits m n).reverse := by
  induction k generalizing n with
  | zero =>
    obtain rfl : n = 0 := by
      rw [Nat.pow_zero] at h
      omega
    rw [Nat.digits_zero]
    rfl
  | succ k ih =>
    rw [digits]
    by_cases hn : n = 0
    · rw [if_pos hn, hn, Nat.digits_zero]
      rfl
    · have hdiv : n / m < m ^ k := by
        rw [Nat.pow_succ] at h
        exact Nat.div_lt_of_lt_mul (by rwa [Nat.mul_comm])
      rw [if_neg hn, Nat.digits_def' hm (Nat.pos_of_ne_zero hn), List.reverse_cons, ih hdiv]

theorem foldl_eq_ofDigits (m : ℕ) (ds : List ℕ) :
    ds.foldl (fun n d => m * n + d) 0 = Nat.ofDigits m ds.reverse := by
  rw [Nat.ofDigits_eq_foldr, List.foldr_reverse]
  congr
  funext n d
  exact Nat.add_comm ..

theorem value_eq (b : Bytes) : value b = Nat.ofDigits 256 (b.map UInt8.toNat).reverse := by
  rw [← foldl_eq_ofDigits, List.foldl_map, value]

theorem eq_replicate_zeros (b : Bytes) : b = List.replicate (zeros b) 0 ++ b.drop (zeros b) := by
  induction b with
  | nil => rfl
  | cons d b ih =>
    rw [zeros]
    split
    · next hd =>
      rw [List.replicate_succ, List.cons_append, List.drop_succ_cons, ← ih, hd]
    · rfl

theorem head?_drop_zeros (b : Bytes) : (b.drop (zeros b)).head? ≠ some 0 := by
  induction b with
  | nil => exact nofun
  | cons d b ih =>
    rw [zeros]
    split
    · rwa [List.drop_succ_cons]
    · next hd =>
      rintro h
      exact hd (Option.some.inj h)

/-- The digits in base 256 are the bytes behind the leading zeros. -/
theorem digits_value {b : Bytes} {k : ℕ} (h : value b < 256 ^ k) :
    digits 256 k (value b) = (b.drop (zeros b)).map UInt8.toNat := by
  have hvalue : value b = Nat.ofDigits 256 ((b.drop (zeros b)).map UInt8.toNat).reverse := by
    rw [value_eq]
    nth_rewrite 1 [eq_replicate_zeros b]
    rw [List.map_append, List.reverse_append, List.map_replicate, List.reverse_replicate]
    exact Nat.ofDigits_append_replicate_zero _
  have hdigits : Nat.digits 256 (value b) = ((b.drop (zeros b)).map UInt8.toNat).reverse := by
    rw [hvalue]
    apply Nat.digits_ofDigits 256 (by decide)
    · rintro d hd
      obtain ⟨x, -, rfl⟩ := List.mem_map.mp (List.mem_reverse.mp hd)
      exact x.toNat_lt
    · rintro hne hlast
      apply head?_drop_zeros b
      rw [List.getLast_reverse, List.head_map] at hlast
      have hzero := UInt8.toNat_inj.mp (hlast.trans UInt8.toNat_zero.symm)
      rw [List.head?_eq_some_head (by simpa using hne), hzero]
  rw [digits_eq (by decide) h, hdigits, List.reverse_reverse]

theorem idxOf?_digit {d : ℕ} (h : d < 58) : alphabet.idxOf? (alphabet.getD d '1') = some d := by
  revert d
  decide

theorem mapM_digits {ds : List ℕ} (h : ∀ d ∈ ds, d < 58) :
    (ds.map fun d => alphabet.getD d '1').mapM (fun c => alphabet.idxOf? c) = some ds := by
  induction ds with
  | nil => rfl
  | cons d ds ih =>
    rw [List.map_cons, List.mapM_cons, idxOf?_digit (h d List.mem_cons_self),
      ih fun d' hd' => h d' (List.mem_cons_of_mem _ hd')]
    rfl

theorem value_lt_pow (b : Bytes) : value b < 58 ^ (2 * b.length) := by
  calc value b < 256 ^ (b.length - zeros b) := value_lt b
    _ ≤ 256 ^ b.length := Nat.pow_le_pow_right (by decide) (Nat.sub_le ..)
    _ ≤ (58 ^ 2) ^ b.length := Nat.pow_le_pow_left (by decide) _
    _ = 58 ^ (2 * b.length) := (Nat.pow_mul ..).symm

/-- The digits behind those for the leading zeros. -/
theorem encodeDigits_eq (b : Bytes) :
    encodeDigits b = List.replicate (zeros b) 0 ++ (Nat.digits 58 (value b)).reverse := by
  rw [encodeDigits, digits_eq (by decide) (value_lt_pow b)]

theorem encodeDigits_lt {b : Bytes} : ∀ d ∈ encodeDigits b, d < 58 := by
  rintro d hd
  rw [encodeDigits_eq] at hd
  rcases List.mem_append.mp hd with h | h
  · obtain rfl := List.eq_of_mem_replicate h
    decide
  · exact Nat.digits_lt_base (by decide) (List.mem_reverse.mp h)

theorem ones_encodeDigits (b : Bytes) : ((encodeDigits b).takeWhile (· = 0)).length = zeros b := by
  rw [encodeDigits_eq, List.takeWhile_append_of_pos]
  · cases hrev : (Nat.digits 58 (value b)).reverse with
    | nil => simp
    | cons d ds =>
      have hdigits := List.reverse_eq_iff.mp hrev
      have hv : value b ≠ 0 := by
        rintro h
        rw [h, Nat.digits_zero] at hrev
        cases hrev
      have hd : d ≠ 0 := by
        simpa [hdigits] using Nat.getLast_digit_ne_zero 58 hv
      rw [List.takeWhile_cons_of_neg (by simpa using hd), List.append_nil, List.length_replicate]
  · rintro d hd
    rw [List.eq_of_mem_replicate hd]
    rfl

theorem foldl_encodeDigits (b : Bytes) :
    (encodeDigits b).foldl (fun n d => 58 * n + d) 0 = value b := by
  rw [foldl_eq_ofDigits, encodeDigits_eq, List.reverse_append, List.reverse_reverse,
    List.reverse_replicate, Nat.ofDigits_append_replicate_zero, Nat.ofDigits_digits]

theorem value_lt_digits (b : Bytes) : value b < 256 ^ (encodeDigits b).length := by
  have hlt := Nat.ofDigits_lt_base_pow_length (b := 58) (l := (encodeDigits b).reverse) (by decide)
    fun d hd => encodeDigits_lt d (List.mem_reverse.mp hd)
  rw [← foldl_eq_ofDigits, foldl_encodeDigits, List.length_reverse] at hlt
  exact lt_of_lt_of_le hlt (Nat.pow_le_pow_left (by decide) _)

theorem decode_encode (b : Bytes) : decode (encode b) = some b := by
  rw [decode, encode, String.toList_ofList, mapM_digits encodeDigits_lt, Option.bind_eq_bind,
    Option.bind_some]
  simp only [ones_encodeDigits, foldl_encodeDigits, digits_value (value_lt_digits b), List.map_map]
  have hmap : (b.drop (zeros b)).map (UInt8.ofNat ∘ UInt8.toNat) = b.drop (zeros b) :=
    List.map_id'' (fun x => UInt8.ofNat_toNat) _
  rw [hmap, ← eq_replicate_zeros]

theorem encode_injective : Function.Injective encode := by
  rintro b b' h
  exact Option.some.inj ((decode_encode b).symm.trans ((congrArg decode h).trans (decode_encode b')))

/-! ## The text of a key -/

theorem toList_encode (b : Bytes) :
    (encode b).toList = (encodeDigits b).map fun d => alphabet.getD d '1' :=
  String.toList_ofList

/-- The alphabet has no zero. -/
theorem zero_notMem_encode (b : Bytes) : '0' ∉ (encode b).toList := by
  have halphabet : ∀ d < 58, alphabet.getD d '1' ≠ '0' := by decide
  rw [toList_encode]
  intro h
  obtain ⟨d, hd, hzero⟩ := List.mem_map.mp h
  exact halphabet d (encodeDigits_lt d hd) hzero

/-- Only a leading zero byte is written as a leading `1`. -/
theorem head?_encode_ne {b : Bytes} (h : b.head? ≠ some 0) : (encode b).toList.head? ≠ some '1' := by
  have hone : ∀ d < 58, d ≠ 0 → alphabet.getD d '1' ≠ '1' := by decide
  have hzeros : zeros b = 0 := by
    cases b with
    | nil => rfl
    | cons d b => rw [zeros, if_neg fun hd => h (congrArg some hd)]
  have hdigits := encodeDigits_eq b
  rw [hzeros, List.replicate_zero, List.nil_append] at hdigits
  rw [toList_encode, List.head?_map]
  intro heq
  obtain ⟨d, hd, hchar⟩ := Option.map_eq_some_iff.mp heq
  refine hone d (encodeDigits_lt d (List.mem_of_mem_head? hd)) ?_ hchar
  rw [hdigits, List.head?_reverse] at hd
  have hne : Nat.digits 58 (value b) ≠ [] := by
    rintro hnil
    rw [hnil] at hd
    cases hd
  rw [List.getLast?_eq_some_getLast hne] at hd
  obtain rfl := Option.some.inj hd
  exact Nat.getLast_digit_ne_zero 58 (Nat.digits_ne_nil_iff_ne_zero.mp hne)

theorem value_cons (d : UInt8) (b : Bytes) :
    value (d :: b) = d.toNat * 256 ^ b.length + value b := by
  rw [value_eq, value_eq, List.map_cons, List.reverse_cons, Nat.ofDigits_append,
    Nat.ofDigits_singleton, List.length_reverse, List.length_map, Nat.add_comm, Nat.mul_comm]

/-- A point of the curve behind the byte for its parity takes 44 or 45 digits. -/
theorem length_encodeDigits_point {d : UInt8} {x : Bytes} (hx : x.length = 32)
    (hd : d = 2 ∨ d = 3) :
    44 ≤ (encodeDigits (d :: x)).length ∧ (encodeDigits (d :: x)).length ≤ 45 := by
  have hzeros : zeros (d :: x) = 0 := by
    rw [zeros, if_neg]
    rcases hd with rfl | rfl <;> decide
  have hvalue : value x < 256 ^ 32 :=
    hx ▸ lt_of_lt_of_le (value_lt x) (Nat.pow_le_pow_right (by decide) (Nat.sub_le ..))
  have hdigits : (encodeDigits (d :: x)).length = (Nat.digits 58 (value (d :: x))).length := by
    rw [encodeDigits_eq, hzeros, List.replicate_zero, List.nil_append, List.length_reverse]
  have hlow : 2 ≤ d.toNat ∧ d.toNat ≤ 3 := by
    rcases hd with rfl | rfl <;> decide
  rw [hdigits, value_cons, hx]
  constructor
  · apply (Nat.lt_digits_length_iff (by decide) _).mpr
    calc 58 ^ 43 ≤ 2 * 256 ^ 32 := by decide
      _ ≤ d.toNat * 256 ^ 32 := Nat.mul_le_mul_right _ hlow.1
      _ ≤ d.toNat * 256 ^ 32 + value x := Nat.le_add_right ..
  · apply (Nat.digits_length_le_iff (by decide) _).mpr
    calc d.toNat * 256 ^ 32 + value x < d.toNat * 256 ^ 32 + 256 ^ 32 := by omega
      _ ≤ 3 * 256 ^ 32 + 256 ^ 32 := Nat.add_le_add_right (Nat.mul_le_mul_right _ hlow.2) _
      _ ≤ 58 ^ 45 := by decide

end WhiteNoise.Wire.Base58
