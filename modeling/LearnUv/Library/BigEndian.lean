import Mathlib.Data.List.Basic
import Mathlib.Data.List.Induction
import Mathlib.Tactic.Ring
import Mathlib.Tactic.Linarith

/-!
# Big-endian byte numerals

Fixed-width numerals in base 256, most significant byte first.

The header of a frame is such a numeral.  Writing and reading undo each other for every
number that fits, and for every byte string of the width; so a header and the length it
announces determine each other, and a longer numeral is read by reading its parts.

## Main Definitions

* `digits k n` — the `k` low-order bytes of `n`
* `value bytes` — the number a byte string denotes

## Main Results

* `value_digits` — `k` bytes hold every number below `256 ^ k`
* `digits_value` — and every byte string is the numeral of its value
* `value_append` — the value of two byte strings, one behind the other
-/

namespace BigEndian

/-- The `k` low-order bytes of `n`, most significant byte first. -/
def digits : ℕ → ℕ → List UInt8
  | 0, _ => []
  | k + 1, n => digits k (n / 256) ++ [UInt8.ofNat n]

/-- The number denoted by a byte string, most significant byte first. -/
def value (bytes : List UInt8) : ℕ :=
  bytes.foldl (fun acc byte => acc * 256 + byte.toNat) 0

/-- A numeral has the length it was asked to have. -/
@[simp] theorem length_digits (k n : ℕ) : (digits k n).length = k := by
  induction k generalizing n with
  | zero => rfl
  | succ k ih => simp [digits, ih]

@[simp] theorem value_nil : value [] = 0 := rfl

/-- The last byte is the lowest. -/
theorem value_concat (bytes : List UInt8) (byte : UInt8) :
    value (bytes ++ [byte]) = value bytes * 256 + byte.toNat := by
  simp [value]

/-- The bytes in front count for more, by the number of those behind. -/
theorem value_append (first second : List UInt8) :
    value (first ++ second) = value first * 256 ^ second.length + value second := by
  induction second using List.reverseRecOn with
  | nil => simp
  | append_singleton second byte ih =>
      rw [← List.append_assoc, value_concat, value_concat, ih, List.length_append,
        List.length_singleton, pow_succ]
      ring

/-- Of the numerals of one length with the same front, that with zeros is the least. -/
theorem value_append_zeros_le (front back : List UInt8) :
    value (front ++ List.replicate back.length 0) ≤ value (front ++ back) := by
  have hzeros : ∀ k, value (List.replicate k 0) = 0 := by
    intro k
    induction k with
    | zero => rfl
    | succ k ih => rw [List.replicate_succ', value_concat, ih]; rfl
  rw [value_append, value_append, List.length_replicate, hzeros, Nat.add_zero]
  exact Nat.le_add_right _ _

/-- The value is bounded by the number of bytes. -/
theorem value_lt (bytes : List UInt8) : value bytes < 256 ^ bytes.length := by
  induction bytes using List.reverseRecOn with
  | nil => simp
  | append_singleton bytes byte ih =>
      rw [value_concat, List.length_append, List.length_singleton, pow_succ]
      have hbyte := byte.toNat_lt
      omega

/-- `k` bytes hold every number below `256 ^ k`. -/
theorem value_digits (k n : ℕ) (h : n < 256 ^ k) : value (digits k n) = n := by
  induction k generalizing n with
  | zero => simp only [pow_zero, Nat.lt_one_iff] at h; simp [digits, h]
  | succ k ih =>
      have hdiv : n / 256 < 256 ^ k :=
        Nat.div_lt_of_lt_mul (by rw [Nat.mul_comm, ← pow_succ]; exact h)
      rw [digits, value_concat, ih _ hdiv, UInt8.toNat_ofNat']
      omega

/-- A byte string is the numeral of its value. -/
theorem digits_value (bytes : List UInt8) :
    digits bytes.length (value bytes) = bytes := by
  induction bytes using List.reverseRecOn with
  | nil => rfl
  | append_singleton bytes byte ih =>
      have hbyte := byte.toNat_lt
      have hdiv : (value bytes * 256 + byte.toNat) / 256 = value bytes := by omega
      have hlast : UInt8.ofNat (value bytes * 256 + byte.toNat) = byte := by
        apply UInt8.toNat_inj.mp
        rw [UInt8.toNat_ofNat']
        omega
      rw [List.length_append, List.length_singleton, digits, value_concat, hdiv, ih,
        hlast]

end BigEndian
