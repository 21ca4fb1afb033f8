import LayeredStore.Bytes
import LayeredStore.Fault

namespace LayeredStore.Word

/-!
# Machine words

Counts, sizes and offsets are natural numbers below `2 ^ 64`. They are stored as
eight bytes, the lowest first. A computation that may leave the range says so.

* `span` — how many numbers fit in a width;
* `littleEndian`, `value` — numbers as bytes, in any width;
* `encode` — the eight bytes of a word;
* `ofInt`, `toInt` — signed numbers as words, in two's complement;
* `add`, `mul`, `addHalf` — sums and products, which fail outside the range;
* `value_littleEndian`, `littleEndian_value` — reading undoes writing, and back.
-/

/-- The number of words, `2 ^ 64`: a word is a natural number below it. -/
def limit : Nat := 0x10000000000000000

/-- Half the number of words, `2 ^ 63`: a word below it stands for itself also when
    words are signed. -/
def signedLimit : Nat := 0x8000000000000000

/-- The number of half words, `2 ^ 32`. -/
def halfLimit : Nat := 0x100000000

/-- The bytes that a word takes. -/
def size : Nat := 8

/-! ### Bytes of a number -/

/-- The number of numbers that `width` bytes can hold. -/
def span : (width : Nat) → Nat
  | 0 => 1
  | width + 1 => 256 * span width

/-- The lowest `width` bytes of a number, the lowest first. -/
def littleEndian : (width : Nat) → Nat → Bytes
  | 0, _ => []
  | width + 1, n => UInt8.ofNat n :: littleEndian width (n / 256)

/-- The number whose bytes are given, the lowest first. -/
def value : Bytes → Nat
  | [] => 0
  | b :: bytes => b.toNat + 256 * value bytes

/-- The eight bytes of a word. -/
def encode (n : Nat) : Bytes :=
  littleEndian size n

@[simp] theorem length_littleEndian (width n : Nat) : (littleEndian width n).length = width := by
  induction width generalizing n with
  | zero => rfl
  | succ width ih => simp [littleEndian, ih]

@[simp] theorem length_encode (n : Nat) : (encode n).length = 8 :=
  length_littleEndian 8 n

theorem span_size : span size = limit := rfl

theorem value_lt (bytes : Bytes) : value bytes < span bytes.length := by
  induction bytes with
  | nil => simp [value, span]
  | cons b bytes ih =>
    have hb : b.toNat < 256 := b.toNat_lt
    simp only [value, List.length_cons, span]
    omega

/-- Reading gives back the number that was written, up to the width. -/
theorem value_littleEndian (width n : Nat) : value (littleEndian width n) = n % span width := by
  induction width generalizing n with
  | zero => simp [littleEndian, value, span, Nat.mod_one]
  | succ width ih =>
    have hb : (UInt8.ofNat n).toNat = n % 256 := UInt8.toNat_ofNat'
    rw [littleEndian, value, ih, hb, span, Nat.mod_mul]

/-- Writing gives back the bytes that were read. -/
theorem littleEndian_value (bytes : Bytes) : littleEndian bytes.length (value bytes) = bytes := by
  induction bytes with
  | nil => rfl
  | cons b bytes ih =>
    have hb : b.toNat < 256 := b.toNat_lt
    have hd : (b.toNat + 256 * value bytes) / 256 = value bytes := by omega
    have hm : UInt8.ofNat (b.toNat + 256 * value bytes) = b := by
      apply UInt8.toNat_inj.mp
      rw [UInt8.toNat_ofNat']
      omega
    simp only [List.length_cons, littleEndian, value, hd, hm, ih]

theorem value_encode {n : Nat} (h : n < limit) : value (encode n) = n := by
  rw [encode, value_littleEndian, span_size]
  exact Nat.mod_eq_of_lt h

theorem encode_value {bytes : Bytes} (h : bytes.length = 8) : encode (value bytes) = bytes := by
  have := littleEndian_value bytes
  rwa [h] at this

/-! ### Signed numbers -/

/-- The word that stands for a whole number, in two's complement. -/
def ofInt (i : Int) : Nat :=
  (i % limit).toNat

/-- The whole number that a word stands for, in two's complement. -/
def toInt (n : Nat) : Int :=
  if n < signedLimit then n else n - limit

theorem lt_limit {n : Nat} (h : n < signedLimit) : n < limit :=
  Nat.lt_trans h (by decide)

theorem ofInt_lt (i : Int) : ofInt i < limit := by
  have hpos : (0 : Int) < limit := by decide
  have hlt := Int.emod_lt_of_pos i hpos
  have hnonneg := Int.emod_nonneg i (Int.ne_of_gt hpos)
  rw [ofInt]
  omega

theorem toInt_of_lt {n : Nat} (h : n < signedLimit) : toInt n = n :=
  if_pos h

/-- A length below half the number of words is read back as it was written. -/
theorem toInt_ofInt_natCast {n : Nat} (h : n < signedLimit) : toInt (ofInt n) = n := by
  have hlt : (n : Int) < limit := by exact_mod_cast lt_limit h
  rw [ofInt, Int.emod_eq_of_lt (Int.natCast_nonneg n) hlt, Int.toNat_natCast, toInt_of_lt h]

/-- The whole numbers that words stand for. -/
def IsSigned (i : Int) : Prop :=
  -(signedLimit : Int) ≤ i ∧ i < signedLimit

theorem isSigned_natCast {n : Nat} : IsSigned n ↔ n < signedLimit := by
  unfold IsSigned
  omega

theorem limit_eq : limit = 2 * signedLimit := rfl

theorem isSigned_toInt {n : Nat} (h : n < limit) : IsSigned (toInt n) := by
  rw [limit_eq] at h
  unfold IsSigned toInt
  rw [limit_eq]
  split <;> omega

/-- Every number that a word can stand for is read back as it was written. -/
theorem toInt_ofInt {i : Int} (h : IsSigned i) : toInt (ofInt i) = i := by
  obtain ⟨hlow, hhigh⟩ := h
  have hlimit : (limit : Int) = 2 * signedLimit := by rw [limit_eq]; push_cast; rfl
  by_cases hneg : i < 0
  · have hword : ofInt i = (i + limit).toNat := by
      rw [ofInt, ← Int.add_emod_right, Int.emod_eq_of_lt (by omega) (by omega)]
    rw [hword, toInt, if_neg (by omega)]
    omega
  · obtain ⟨n, rfl⟩ := Int.eq_ofNat_of_zero_le (Int.not_lt.mp hneg)
    exact toInt_ofInt_natCast (by omega)

/-- Every word is written as what it stands for. -/
theorem ofInt_toInt {n : Nat} (h : n < limit) : ofInt (toInt n) = n := by
  have hword : (n : Int) % limit = n := Int.emod_eq_of_lt (Int.natCast_nonneg n) (by omega)
  unfold toInt
  split
  · rw [ofInt, hword, Int.toNat_natCast]
  · rw [ofInt, Int.sub_emod_right, hword, Int.toNat_natCast]

/-! ### Sums and products -/

/-- The sum of two words, if it is a word. -/
def add (a b : Nat) : Except Fault Nat :=
  if a + b < limit then .ok (a + b) else .error (.overflow .sum)

/-- The product of two words, if it is a word. -/
def mul (a b : Nat) : Except Fault Nat :=
  if a * b < limit then .ok (a * b) else .error (.overflow .product)

/-- The sum of two half words, if it is a half word. -/
def addHalf (a b : Nat) : Except Fault Nat :=
  if a + b < halfLimit then .ok (a + b) else .error (.overflow .sum)

theorem add_of_lt {a b : Nat} (h : a + b < limit) : add a b = .ok (a + b) :=
  if_pos h

theorem mul_of_lt {a b : Nat} (h : a * b < limit) : mul a b = .ok (a * b) :=
  if_pos h

theorem addHalf_of_lt {a b : Nat} (h : a + b < halfLimit) : addHalf a b = .ok (a + b) :=
  if_pos h

end LayeredStore.Word
