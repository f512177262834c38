import Mathlib.Algebra.Group.Nat.Defs
import Mathlib.Data.Int.Notation
import Mathlib.Data.List.Basic

/-!
# Decimal numerals in memory

The text of an integer: its digits in ASCII, most significant first and without leading
zeros, behind a minus sign when it is negative.

Reading is not the inverse of a format but a function on all texts, so that "the text is the
numeral of this integer" can be said of any output.  The numeral of an integer is read back
(`read_numeral`), and different integers have different numerals.  A padded numeral has zeros
between its sign and its digits, as `printf` puts them, and still determines its integer.

## Main Definitions

* `natNumeral`, `numeral` — the numeral of a natural number, of an integer
* `padded` — the numeral of an integer, with zeros up to a width
* `readNat`, `read` — the number a text denotes, if it is digits, or a minus and digits

## Main Results

* `read_numeral`, `read_padded` — a numeral is read back
* `numeral_injective`, `padded_injective` — different integers have different numerals
* `head?_numeral`, `head?_natNumeral` — the minus sign, and no leading zeros
* `length_natNumeral_le`, `length_numeral_le`, `length_padded_le` — how long a numeral is
* `isNumeralChar_of_mem_padded` — which characters are in it
* `exists_readNat_padded_iff` — when padding leaves a string of digits
-/

namespace Decimal

/-- `'-'`. -/
def minus : UInt8 := 45

/-- The character of a digit. -/
def digit (d : ℕ) : UInt8 := (Nat.digitChar d).toUInt8

/-- The digits of a number, most significant first. -/
def natNumeral (n : ℕ) : List UInt8 := (Nat.toDigits 10 n).map Char.toUInt8

/-- The canonical numeral of an integer. -/
def numeral (v : ℤ) : List UInt8 :=
  if v < 0 then minus :: natNumeral v.natAbs else natNumeral v.natAbs

/-- The numeral of an integer, with zeros behind the sign up to a width. -/
def padded (width : ℕ) (v : ℤ) : List UInt8 :=
  let sign := if v < 0 then [minus] else []
  let digits := natNumeral v.natAbs
  sign ++ List.replicate (width - sign.length - digits.length) (digit 0) ++ digits

/-- A minus sign or a digit. -/
def IsNumeralChar (c : UInt8) : Prop := c = minus ∨ 48 ≤ c.toNat ∧ c.toNat ≤ 57

instance decidableIsNumeralChar (c : UInt8) : Decidable (IsNumeralChar c) :=
  inferInstanceAs (Decidable (_ ∨ _))

/-- The character in a byte. -/
def charOf (c : UInt8) : Char := Char.ofNat c.toNat

/-- The value of a string of digits. -/
def readNat (text : List UInt8) : Option ℕ :=
  if text ≠ [] ∧ text.all (fun c => (charOf c).isDigit) = true then
    some (Nat.ofDigitChars 10 (text.map charOf) 0)
  else none

/-- The value of a string of digits, which a minus sign may precede. -/
def read (text : List UInt8) : Option ℤ :=
  if text.head? = some minus then (readNat text.tail).map fun n : ℕ => -(n : ℤ)
  else (readNat text).map fun n : ℕ => (n : ℤ)

/-! ## The shape of a numeral -/

theorem natNumeral_of_lt {n : ℕ} (h : n < 10) : natNumeral n = [digit n] := by
  rw [natNumeral, Nat.toDigits_of_lt_base h]
  rfl

/-- The last digit is the remainder. -/
theorem natNumeral_of_le {n : ℕ} (h : 10 ≤ n) :
    natNumeral n = natNumeral (n / 10) ++ [digit (n % 10)] := by
  rw [natNumeral, Nat.toDigits_of_base_le (by decide) h, List.map_append]
  rfl

theorem natNumeral_ne_nil (n : ℕ) : natNumeral n ≠ [] := by
  rw [natNumeral, Ne, List.map_eq_nil_iff]
  exact Nat.toDigits_ne_nil

theorem numeral_ne_nil (v : ℤ) : numeral v ≠ [] := by
  rw [numeral]
  split
  · exact List.cons_ne_nil _ _
  · exact natNumeral_ne_nil _

/-- A number below `10 ^ k` has at most `k` digits. -/
theorem length_natNumeral_le {n k : ℕ} (hk : 0 < k) (h : n < 10 ^ k) :
    (natNumeral n).length ≤ k := by
  rw [natNumeral, List.length_map, Nat.length_toDigits_le_iff (by decide) hk]
  exact h

/-- A numeral is a sign longer than its digits at most. -/
theorem length_numeral_le {v : ℤ} {k : ℕ} (hk : 0 < k) (h : v.natAbs < 10 ^ k) :
    (numeral v).length ≤ k + 1 := by
  have hdigits := length_natNumeral_le hk h
  rw [numeral]
  split
  · exact Nat.succ_le_succ hdigits
  · exact Nat.le_succ_of_le hdigits

theorem toNat_digit {d : ℕ} (h : d < 10) : (digit d).toNat = 48 + d := by
  have hchar := Nat.toNat_digitChar_of_lt_ten h
  have hbyte : (digit d).toNat = (Nat.digitChar d).toNat % 256 := UInt8.toNat_ofNat'
  rw [hbyte, hchar, Nat.mod_eq_of_lt (by omega)]

/-- Padding fills up to the width, and does not cut what is longer. -/
theorem length_padded_le {width k : ℕ} {v : ℤ} (hk : 0 < k) (h : v.natAbs < 10 ^ k) :
    (padded width v).length ≤ max width (k + 1) := by
  have hdigits := length_natNumeral_le hk h
  have hsign : (if v < 0 then [minus] else []).length ≤ 1 := by
    split
    · exact Nat.le_refl 1
    · exact Nat.zero_le 1
  simp only [padded, List.length_append, List.length_replicate]
  omega

/-! ## Reading -/

/-- A digit survives being stored in a byte. -/
theorem charOf_toUInt8 {c : Char} (h : c.isDigit = true) : charOf c.toUInt8 = c := by
  have hbyte : c.toUInt8.toNat = c.toNat % 256 := UInt8.toNat_ofNat'
  have hle : c.toNat ≤ 57 := by
    simp only [Char.isDigit, Bool.and_eq_true, decide_eq_true_eq] at h
    exact h.2
  rw [charOf, hbyte, Nat.mod_eq_of_lt (by omega), Char.ofNat_toNat]

theorem map_charOf_natNumeral (n : ℕ) : (natNumeral n).map charOf = Nat.toDigits 10 n := by
  rw [natNumeral, List.map_map]
  conv_rhs => rw [← List.map_id (Nat.toDigits 10 n)]
  refine List.map_congr_left ?_
  intro c hc
  exact charOf_toUInt8 (Nat.isDigit_of_mem_toDigits (by decide) (by decide) hc)

theorem isNumeralChar_of_mem_natNumeral {n : ℕ} {c : UInt8} (h : c ∈ natNumeral n) :
    IsNumeralChar c := by
  obtain ⟨d, hd, rfl⟩ := List.mem_map.mp h
  have hdigit := Nat.isDigit_of_mem_toDigits (by decide) (by decide) hd
  have hbyte : d.toUInt8.toNat = d.toNat % 256 := UInt8.toNat_ofNat'
  simp only [Char.isDigit, Bool.and_eq_true, decide_eq_true_eq] at hdigit
  have hlow : 48 ≤ d.toNat := hdigit.1
  have hhigh : d.toNat ≤ 57 := hdigit.2
  rw [IsNumeralChar, hbyte, Nat.mod_eq_of_lt (by omega)]
  exact Or.inr ⟨hlow, hhigh⟩

theorem isNumeralChar_of_mem_numeral {v : ℤ} {c : UInt8} (h : c ∈ numeral v) :
    IsNumeralChar c := by
  rw [numeral] at h
  split at h
  · rcases List.mem_cons.mp h with rfl | h
    · exact Or.inl rfl
    · exact isNumeralChar_of_mem_natNumeral h
  · exact isNumeralChar_of_mem_natNumeral h

/-- There is nothing but a sign and digits in a numeral. -/
theorem isNumeralChar_of_mem_padded {width : ℕ} {v : ℤ} {c : UInt8} (h : c ∈ padded width v) :
    IsNumeralChar c := by
  rcases List.mem_append.mp h with h | h
  · rcases List.mem_append.mp h with h | h
    · split at h
      · exact Or.inl (List.mem_singleton.mp h)
      · cases h
    · rw [List.eq_of_mem_replicate h]
      exact Or.inr ⟨by decide, by decide⟩
  · exact isNumeralChar_of_mem_natNumeral h

/-- A number that is written is read back. -/
theorem readNat_natNumeral (n : ℕ) : readNat (natNumeral n) = some n := by
  have hdigits : ∀ c ∈ natNumeral n, (charOf c).isDigit = true := by
    intro c hc
    have hmem : charOf c ∈ Nat.toDigits 10 n := by
      rw [← map_charOf_natNumeral]
      exact List.mem_map_of_mem hc
    exact Nat.isDigit_of_mem_toDigits (by decide) (by decide) hmem
  rw [readNat, if_pos ⟨natNumeral_ne_nil n, List.all_eq_true.mpr hdigits⟩, map_charOf_natNumeral,
    Nat.ofDigitChars_toDigits (by decide) (by decide)]

/-- So different numbers have different numerals. -/
theorem natNumeral_injective {m n : ℕ} (h : natNumeral m = natNumeral n) : m = n := by
  have hread := congrArg readNat h
  rw [readNat_natNumeral, readNat_natNumeral] at hread
  exact Option.some.inj hread

/-- What has a value is digits, and at least one. -/
theorem isDigit_of_readNat {text : List UInt8} {n : ℕ} (h : readNat text = some n) :
    text ≠ [] ∧ ∀ c ∈ text, (charOf c).isDigit = true := by
  rw [readNat] at h
  split at h
  · next hdigits => exact ⟨hdigits.1, List.all_eq_true.mp hdigits.2⟩
  · cases h

/-- What is read as a number holds no sign. -/
theorem minus_notMem_of_readNat {text : List UInt8} {n : ℕ} (h : readNat text = some n) :
    minus ∉ text := by
  intro hmem
  exact absurd ((isDigit_of_readNat h).2 minus hmem) (by decide)

/-- A numeral without a sign does not start with one. -/
theorem head?_natNumeral_ne_minus (n : ℕ) : (natNumeral n).head? ≠ some minus :=
  fun hhead => minus_notMem_of_readNat (readNat_natNumeral n) (List.mem_of_mem_head? hhead)

/-- Leading zeros do not change the value. -/
theorem readNat_replicate_append {text : List UInt8} {n : ℕ} (h : readNat text = some n)
    (k : ℕ) : readNat (List.replicate k (digit 0) ++ text) = some n := by
  obtain ⟨hne, hdigits⟩ := isDigit_of_readNat h
  have hall : ∀ c ∈ List.replicate k (digit 0) ++ text, (charOf c).isDigit = true := by
    intro c hc
    rcases List.mem_append.mp hc with hc | hc
    · rw [List.eq_of_mem_replicate hc]
      rfl
    · exact hdigits c hc
  have hzero : charOf (digit 0) = '0' := rfl
  rw [readNat, if_pos ⟨hne, List.all_eq_true.mpr hdigits⟩] at h
  rw [readNat, if_pos ⟨List.append_ne_nil_of_right_ne_nil _ hne, List.all_eq_true.mpr hall⟩,
    List.map_append, List.map_replicate, hzero, Nat.ofDigitChars_append,
    Nat.ofDigitChars_replicate_zero, Nat.mul_zero, h]

/-- There are no leading zeros. -/
theorem head?_natNumeral (n : ℕ) : (natNumeral n).head? = some (digit 0) ↔ n = 0 := by
  constructor
  · intro hhead
    induction n using Nat.strongRecOn with
    | ind n ih =>
        rcases Nat.lt_or_ge n 10 with hlt | hge
        · rw [natNumeral_of_lt hlt, List.head?_cons, Option.some_inj] at hhead
          have hvalue := congrArg UInt8.toNat hhead
          rw [toNat_digit hlt, toNat_digit (by decide)] at hvalue
          omega
        · rw [natNumeral_of_le hge, List.head?_append_of_ne_nil _ (natNumeral_ne_nil _)] at hhead
          have hzero := ih (n / 10) (by omega) hhead
          omega
  · rintro rfl
    rfl

/-- **A numeral is read back.** -/
theorem read_numeral (v : ℤ) : read (numeral v) = some v := by
  rw [numeral]
  split
  · next hneg =>
      rw [read, List.head?_cons, if_pos rfl, List.tail_cons, readNat_natNumeral, Option.map_some]
      congr 1
      omega
  · next hpos =>
      rw [read, if_neg (head?_natNumeral_ne_minus _), readNat_natNumeral, Option.map_some]
      congr 1
      omega

/-- **Different integers have different numerals.** -/
theorem numeral_injective {v w : ℤ} (h : numeral v = numeral w) : v = w := by
  have hread := congrArg read h
  rw [read_numeral, read_numeral] at hread
  exact Option.some.inj hread

/-- The sign of a numeral is that of the number. -/
theorem head?_numeral (v : ℤ) : (numeral v).head? = some minus ↔ v < 0 := by
  rw [numeral]
  split
  · next hneg => exact iff_of_true rfl hneg
  · next hpos => exact iff_of_false (head?_natNumeral_ne_minus _) hpos

/-- The digits alone are the numeral exactly of a number that is not negative. -/
theorem natNumeral_eq_numeral_iff (v : ℤ) : natNumeral v.natAbs = numeral v ↔ 0 ≤ v := by
  constructor
  · intro heq
    by_contra hneg
    have hhead := (head?_numeral v).mpr (by omega)
    rw [← heq] at hhead
    exact head?_natNumeral_ne_minus _ hhead
  · intro hpos
    rw [numeral, if_neg (by omega)]

/-! ## Padding -/

/-- In front of a number without sign there are zeros. -/
theorem padded_of_nonneg (width : ℕ) {v : ℤ} (h : 0 ≤ v) :
    padded width v =
      List.replicate (width - (natNumeral v.natAbs).length) (digit 0) ++ natNumeral v.natAbs := by
  simp only [padded, if_neg (Int.not_lt.mpr h), List.length_nil, Nat.sub_zero, List.nil_append]

/-- The sign takes one of the places. -/
theorem padded_of_neg (width : ℕ) {v : ℤ} (h : v < 0) :
    padded width v = minus :: (List.replicate (width - 1 - (natNumeral v.natAbs).length)
      (digit 0) ++ natNumeral v.natAbs) := by
  simp only [padded, if_pos h, List.length_singleton, List.cons_append, List.nil_append]

/-- Leading zeros do not change what is read. -/
theorem readNat_padded (width : ℕ) {v : ℤ} (h : 0 ≤ v) :
    readNat (padded width v) = some v.natAbs := by
  rw [padded_of_nonneg width h]
  exact readNat_replicate_append (readNat_natNumeral _) _

/-- **A padded numeral is read back.** -/
theorem read_padded (width : ℕ) (v : ℤ) : read (padded width v) = some v := by
  rcases Int.lt_or_le v 0 with hneg | hpos
  · have hdigits := readNat_replicate_append (readNat_natNumeral v.natAbs)
      (width - 1 - (natNumeral v.natAbs).length)
    rw [padded_of_neg width hneg, read, List.head?_cons, if_pos rfl, List.tail_cons, hdigits,
      Option.map_some]
    congr 1
    omega
  · have hdigits := readNat_padded width hpos
    have hhead : (padded width v).head? ≠ some minus :=
      fun hhead => minus_notMem_of_readNat hdigits (List.mem_of_mem_head? hhead)
    rw [read, if_neg hhead, hdigits, Option.map_some]
    congr 1
    omega

/-- Padding keeps different integers apart. -/
theorem padded_injective {width : ℕ} {v w : ℤ} (h : padded width v = padded width w) :
    v = w := by
  have hread := congrArg read h
  rw [read_padded, read_padded] at hread
  exact Option.some.inj hread

/-- A number that is not negative and fits its width fills it. -/
theorem length_padded_of_nonneg {width : ℕ} (hwidth : 0 < width) {v : ℤ} (h : 0 ≤ v)
    (hfits : v.natAbs < 10 ^ width) : (padded width v).length = width := by
  have hdigits := length_natNumeral_le hwidth hfits
  rw [padded_of_nonneg width h, List.length_append, List.length_replicate]
  omega

/-- **There are only digits** in a padded numeral exactly if the number is not negative. -/
theorem exists_readNat_padded_iff (width : ℕ) (v : ℤ) :
    (∃ n, readNat (padded width v) = some n) ↔ 0 ≤ v := by
  constructor
  · rintro ⟨n, hread⟩
    by_contra hneg
    rw [padded_of_neg width (Int.not_le.mp hneg)] at hread
    exact minus_notMem_of_readNat hread List.mem_cons_self
  · intro hpos
    exact ⟨v.natAbs, readNat_padded width hpos⟩

end Decimal
