import WhiteNoise.Wire.Varint

/-! # Protocol buffer records

A record is a sequence of numbered fields, each an integer or a
length-delimited byte string. Fields at their default value are omitted, the
last occurrence of a field counts and unknown fields are skipped.
-/

namespace WhiteNoise.Wire

/-- A field value, by wire type 0 or 2. -/
inductive Value where
  | varint (n : ℕ)
  | bytes (b : Bytes)
  deriving DecidableEq

structure Field where
  number : ℕ
  value : Value
  deriving DecidableEq

namespace Field

def encode (f : Field) : Bytes :=
  match f.value with
  | .varint n => Varint.encode (f.number * 8) ++ Varint.encode n
  | .bytes b => Varint.encode (f.number * 8 + 2) ++ (Varint.encode b.length ++ b)

/-- Read one field and return the bytes after it. -/
def parse (b : Bytes) : Option (Field × Bytes) :=
  match Varint.decode b with
  | none => none
  | some (key, rest) =>
    if key % 8 = 0 then
      match Varint.decode rest with
      | none => none
      | some (n, rest) => some (⟨key / 8, .varint n⟩, rest)
    else if key % 8 = 2 then
      match Varint.decode rest with
      | none => none
      | some (n, rest) =>
        if n ≤ rest.length then some (⟨key / 8, .bytes (rest.take n)⟩, rest.drop n) else none
    else none

theorem parse_encode (f : Field) (rest : Bytes) :
    parse (f.encode ++ rest) = some (f, rest) := by
  obtain ⟨k, v⟩ := f
  cases v with
  | varint n =>
    have hk : k * 8 / 8 = k := Nat.mul_div_cancel k (by decide)
    simp [parse, encode, List.append_assoc, Varint.decode_encode, hk]
  | bytes b =>
    have hk : (k * 8 + 2) / 8 = k := by omega
    have hm : (k * 8 + 2) % 8 = 2 := by omega
    simp [parse, encode, List.append_assoc, Varint.decode_encode, hk, hm]

theorem encode_ne_nil (f : Field) : f.encode ≠ [] := by
  have hs (n : ℕ) : Varint.encode n ≠ [] := List.ne_nil_of_length_pos (Varint.size_pos n)
  cases hv : f.value <;> simp [encode, hv, hs]

/-- Bytes of an encoded field. -/
def size (f : Field) : ℕ :=
  match f.value with
  | .varint n => Varint.size (f.number * 8) + Varint.size n
  | .bytes b => Varint.size (f.number * 8 + 2) + (Varint.size b.length + b.length)

theorem length_encode (f : Field) : f.encode.length = f.size := by
  cases hv : f.value <;> simp [encode, size, hv, Varint.size]

end Field

namespace Record

def encode (fs : List Field) : Bytes := fs.flatMap Field.encode

/-- Read fields until the bytes end. -/
def parse : ℕ → Bytes → Option (List Field)
  | _, [] => some []
  | 0, _ :: _ => none
  | k + 1, b :: bs =>
    match Field.parse (b :: bs) with
    | none => none
    | some (f, rest) =>
      match parse k rest with
      | none => none
      | some fs => some (f :: fs)

/-- Every field takes a byte, so the length bounds the number of fields. -/
def decode (b : Bytes) : Option (List Field) := parse b.length b

theorem parse_encode {k : ℕ} {fs : List Field} (h : (encode fs).length ≤ k) :
    parse k (encode fs) = some fs := by
  induction fs generalizing k with
  | nil => cases k <;> rfl
  | cons f fs ih =>
    have he : encode (f :: fs) = f.encode ++ encode fs := rfl
    rw [he, List.length_append] at h
    have hf : 0 < f.encode.length := List.length_pos_iff.mpr f.encode_ne_nil
    obtain ⟨k, rfl⟩ : ∃ j, k = j + 1 := ⟨k - 1, by omega⟩
    obtain ⟨b, bs, hb⟩ := List.exists_cons_of_ne_nil
      (List.append_ne_nil_of_left_ne_nil f.encode_ne_nil (encode fs))
    have hp := Field.parse_encode f (encode fs)
    rw [hb] at hp
    rw [he, hb, parse, hp]
    dsimp only
    rw [ih (by omega)]

theorem decode_encode (fs : List Field) : decode (encode fs) = some fs :=
  parse_encode (Nat.le_refl _)

/-- Bytes of an encoded record. -/
def size (fs : List Field) : ℕ := (fs.map Field.size).sum

@[simp] theorem size_nil : size [] = 0 := rfl

@[simp] theorem size_cons (f : Field) (fs : List Field) : size (f :: fs) = f.size + size fs := rfl

theorem size_append (fs gs : List Field) : size (fs ++ gs) = size fs + size gs := by
  simp [size]

theorem length_encode (fs : List Field) : (encode fs).length = size fs := by
  induction fs with
  | nil => rfl
  | cons f fs ih =>
    have he : encode (f :: fs) = f.encode ++ encode fs := rfl
    rw [he, List.length_append, Field.length_encode, ih, size_cons]

end Record

end WhiteNoise.Wire
