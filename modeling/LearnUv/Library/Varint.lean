import Mathlib.Algebra.Group.Nat.Defs
import Mathlib.Data.List.Basic
import Mathlib.Tactic.Ring

/-!
# Base-128 numerals

A natural number in groups of seven bits, the lowest ones first, each in a byte of its own.
All bytes but the last have their high bit set.

Reading stops at a limit on the number of bytes.  What is behind a numeral does not matter
to it, and bytes of a longer numeral than the canonical one are accepted too.

Writing is by recursion on the number, which loses seven bits in each step, and reading by
recursion on the limit.  That a numeral is read back therefore needs a limit that is not
smaller than the length of the numeral, and `length_write_le` gives it for numbers of a given
size: ten bytes are enough for 64 bits.

## Main Definitions

* `write`, `read` — the numeral of a number, and the number at the front of some bytes

## Main Results

* `read_write_append` — a numeral is read back, with what is behind it left over
* `read_append`, `length_lt_of_read` — reading does not look behind the numeral, and takes
  something off
* `length_write_le` — how long a numeral is
-/

namespace Varint

/-- The numeral of a number. -/
def write (n : ℕ) : List UInt8 :=
  if n < 128 then [UInt8.ofNat n] else UInt8.ofNat (n % 128 + 128) :: write (n / 128)
termination_by n
decreasing_by omega

/-- The number at the front of some bytes, if its numeral has at most `limit` of them. -/
def read : ℕ → List UInt8 → Option (ℕ × List UInt8)
  | 0, _ => none
  | _ + 1, [] => none
  | limit + 1, byte :: bytes =>
      if byte.toNat < 128 then some (byte.toNat, bytes)
      else (read limit bytes).map fun (n, rest) => (byte.toNat - 128 + 128 * n, rest)

theorem write_of_lt {n : ℕ} (h : n < 128) : write n = [UInt8.ofNat n] := by
  rw [write, if_pos h]

theorem write_of_le {n : ℕ} (h : 128 ≤ n) :
    write n = UInt8.ofNat (n % 128 + 128) :: write (n / 128) := by
  rw [write, if_neg (by omega)]

theorem write_ne_nil (n : ℕ) : write n ≠ [] := by
  rw [write]
  split <;> exact List.cons_ne_nil _ _

/-- Each byte holds seven bits. -/
theorem length_write_le {k n : ℕ} (hk : 0 < k) (h : n < 128 ^ k) : (write n).length ≤ k := by
  induction k generalizing n with
  | zero => omega
  | succ k ih =>
      rcases Nat.lt_or_ge n 128 with hlt | hge
      · rw [write_of_lt hlt, List.length_singleton]
        omega
      · have hpos : 0 < k := by
          by_contra hzero
          obtain rfl : k = 0 := by omega
          omega
        have hquot : n / 128 < 128 ^ k := by
          rw [Nat.div_lt_iff_lt_mul (by decide), ← pow_succ]
          exact h
        rw [write_of_le hge, List.length_cons]
        exact Nat.succ_le_succ (ih hpos hquot)

/-- **A numeral is read back.** -/
theorem read_write_append {limit n : ℕ} (h : (write n).length ≤ limit) (rest : List UInt8) :
    read limit (write n ++ rest) = some (n, rest) := by
  induction limit generalizing n with
  | zero =>
      have hlength := List.length_pos_iff.mpr (write_ne_nil n)
      omega
  | succ limit ih =>
      rcases Nat.lt_or_ge n 128 with hlt | hge
      · have hbyte : (UInt8.ofNat n).toNat = n := by
          rw [UInt8.toNat_ofNat', Nat.mod_eq_of_lt (by omega)]
        rw [write_of_lt hlt, List.singleton_append, read, if_pos (by omega), hbyte]
      · have hbyte : (UInt8.ofNat (n % 128 + 128)).toNat = n % 128 + 128 := by
          rw [UInt8.toNat_ofNat', Nat.mod_eq_of_lt (by omega)]
        rw [write_of_le hge, List.length_cons] at h
        rw [write_of_le hge, List.cons_append, read, if_neg (by omega), ih (by omega),
          Option.map_some]
        show some ((UInt8.ofNat (n % 128 + 128)).toNat - 128 + 128 * (n / 128), rest) = _
        have hvalue : (UInt8.ofNat (n % 128 + 128)).toNat - 128 + 128 * (n / 128) = n := by omega
        rw [hvalue]

/-- **What is behind a numeral** does not matter. -/
theorem read_append {limit n : ℕ} {bytes rest : List UInt8} (h : read limit bytes = some (n, rest))
    (more : List UInt8) : read limit (bytes ++ more) = some (n, rest ++ more) := by
  induction limit generalizing bytes n with
  | zero => cases h
  | succ limit ih =>
      cases bytes with
      | nil => cases h
      | cons byte bytes =>
          rw [read] at h
          rw [List.cons_append, read]
          split at h
          · next hlast =>
              cases h
              rw [if_pos hlast]
          · next hmore =>
              obtain ⟨⟨m, left⟩, hread, hvalue⟩ := Option.map_eq_some_iff.mp h
              cases hvalue
              rw [if_neg hmore, ih hread, Option.map_some]

/-- A numeral has at least one byte. -/
theorem length_lt_of_read {limit n : ℕ} {bytes rest : List UInt8}
    (h : read limit bytes = some (n, rest)) : rest.length < bytes.length := by
  induction limit generalizing bytes n with
  | zero => cases h
  | succ limit ih =>
      cases bytes with
      | nil => cases h
      | cons byte bytes =>
          rw [read] at h
          rw [List.length_cons]
          split at h
          · cases h
            exact Nat.lt_succ_self _
          · obtain ⟨⟨m, left⟩, hread, hvalue⟩ := Option.map_eq_some_iff.mp h
            cases hvalue
            exact Nat.lt_succ_of_lt (ih hread)

end Varint
