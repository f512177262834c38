import LearnUv.Library.Decimal
import Mathlib.Algebra.Order.Field.Rat
import Mathlib.Tactic.FieldSimp
import Mathlib.Tactic.Linarith

/-!
# Fixed-point numerals

A decimal number with a fixed number of places: a minus sign or none, at least one digit, a
point, and as many digits as there are places.  It denotes a rational number.

A program that prints such a number often prints two integers, one in front of the point and
one behind it.  If both are printed with their signs this is a numeral only when the one
behind has none: a sign behind the point is no digit.  `denotes_joined_iff` says so, and that
the numeral then denotes the sum of the parts.  The text can be taken apart in any case, since
the point does not occur in an integer.

## Main Definitions

* `FixedPoint` — the parts of a numeral, each with its value
* `FixedPoint.text`, `FixedPoint.value` — what is written, and the number it stands for
* `Denotes` — a text is a numeral of a number
* `joined` — two integers that are written one by one, with a point in between

## Main Results

* `FixedPoint.value_eq_iff` — the value, counted in units of the last place
* `joined_injective` — the integers can be told from the text
* `denotes_joined_iff` — when the text denotes what the integers add up to
-/

namespace Decimal

/-- `'.'`. -/
def point : UInt8 := 46

/-- A number with `places` digits behind the point. -/
structure FixedPoint (places : ℕ) where
  negative : Bool
  /-- The digits in front of the point. -/
  whole : List UInt8
  /-- The digits behind it. -/
  fraction : List UInt8
  wholeValue : ℕ
  fractionValue : ℕ
  read_whole : readNat whole = some wholeValue
  read_fraction : readNat fraction = some fractionValue
  length_fraction : fraction.length = places

variable {places : ℕ}

namespace FixedPoint

/-- A minus sign, or nothing. -/
def sign (n : FixedPoint places) : List UInt8 := if n.negative then [minus] else []

/-- What is written. -/
def text (n : FixedPoint places) : List UInt8 := n.sign ++ n.whole ++ point :: n.fraction

/-- The number. -/
def value (n : FixedPoint places) : ℚ :=
  let magnitude : ℚ := n.wholeValue + n.fractionValue / 10 ^ places
  if n.negative then -magnitude else magnitude

/-- The number in units of the last place. -/
def scaled (n : FixedPoint places) : ℤ :=
  let magnitude : ℤ := n.wholeValue * 10 ^ places + n.fractionValue
  if n.negative then -magnitude else magnitude

theorem ten_pow_ne_zero (places : ℕ) : (10 : ℚ) ^ places ≠ 0 :=
  pow_ne_zero places (by norm_num)

/-- The value is an integer in units of the last place. -/
theorem value_eq (n : FixedPoint places) : n.value = n.scaled / 10 ^ places := by
  have hpow := ten_pow_ne_zero places
  rw [value, scaled]
  split
  · push_cast
    field_simp
  · push_cast
    field_simp

/-- Two numerals have one value exactly when these integers are equal. -/
theorem value_eq_iff (n : FixedPoint places) (k : ℤ) :
    n.value = k / 10 ^ places ↔ n.scaled = k := by
  rw [value_eq, div_left_inj' (ten_pow_ne_zero places), Int.cast_inj]

/-- The sign is seen at the beginning of the text, since a digit is no minus sign. -/
theorem head?_sign_whole (n : FixedPoint places) :
    (n.sign ++ n.whole).head? = some minus ↔ n.negative = true := by
  have hwhole : n.whole.head? ≠ some minus :=
    fun hhead => minus_notMem_of_readNat n.read_whole (List.mem_of_mem_head? hhead)
  rw [sign]
  cases n.negative with
  | true => exact iff_of_true rfl rfl
  | false => exact iff_of_false hwhole Bool.false_ne_true

/-- The value of the part in front of the point. -/
theorem read_sign_whole (n : FixedPoint places) :
    read (n.sign ++ n.whole) =
      some (if n.negative then -(n.wholeValue : ℤ) else n.wholeValue) := by
  have hhead := n.head?_sign_whole
  by_cases hneg : n.negative = true
  · rw [read, if_pos (hhead.mpr hneg), sign, if_pos hneg, if_pos hneg, List.singleton_append,
      List.tail_cons, n.read_whole]
    rfl
  · rw [read, if_neg (mt hhead.mp hneg), sign, if_neg hneg, if_neg hneg, List.nil_append,
      n.read_whole]
    rfl

end FixedPoint

/-- The text is a numeral of the number. -/
def Denotes (places : ℕ) (text : List UInt8) (q : ℚ) : Prop :=
  ∃ n : FixedPoint places, n.text = text ∧ n.value = q

/-! ## Two integers -/

/-- Two integers, the second one padded, and a point in between. -/
def joined (places : ℕ) (whole fraction : ℤ) : List UInt8 :=
  numeral whole ++ point :: padded places fraction

theorem point_notMem_numeral (v : ℤ) : point ∉ numeral v :=
  fun hmem => absurd (isNumeralChar_of_mem_numeral hmem) (by decide)

theorem point_notMem_padded (width : ℕ) (v : ℤ) : point ∉ padded width v :=
  fun hmem => absurd (isNumeralChar_of_mem_padded hmem) (by decide)

/-- There is one point, so what is around it is determined. -/
theorem eq_joined_iff {front behind : List UInt8} {whole fraction : ℤ} :
    front ++ point :: behind = joined places whole fraction ↔
      front = numeral whole ∧ behind = padded places fraction := by
  have hfront := point_notMem_numeral whole
  have hbehind := point_notMem_padded places fraction
  rw [joined, eq_comm, List.append_cons_inj_of_notMem hfront hbehind]
  constructor
  · rintro ⟨hwhole, -, hfraction⟩
    exact ⟨hwhole.symm, hfraction.symm⟩
  · rintro ⟨hwhole, hfraction⟩
    exact ⟨hwhole.symm, rfl, hfraction.symm⟩

/-- **The integers can be told from the text.** -/
theorem joined_injective {whole fraction whole' fraction' : ℤ}
    (h : joined places whole fraction = joined places whole' fraction') :
    whole = whole' ∧ fraction = fraction' := by
  obtain ⟨hwhole, hfraction⟩ := eq_joined_iff.mp h
  exact ⟨numeral_injective hwhole, padded_injective hfraction⟩

/-- The numeral of two integers, where the second one has no sign. -/
def FixedPoint.ofParts (hplaces : 0 < places) (whole : ℤ) {fraction : ℤ} (hpos : 0 ≤ fraction)
    (hfits : fraction.natAbs < 10 ^ places) : FixedPoint places where
  negative := decide (whole < 0)
  whole := natNumeral whole.natAbs
  fraction := padded places fraction
  wholeValue := whole.natAbs
  fractionValue := fraction.natAbs
  read_whole := readNat_natNumeral _
  read_fraction := readNat_padded places hpos
  length_fraction := length_padded_of_nonneg hplaces hpos hfits

namespace FixedPoint

variable {whole fraction : ℤ}

/-- The numeral made of two integers is written as they are. -/
theorem text_ofParts (hplaces : 0 < places) (hpos : 0 ≤ fraction)
    (hfits : fraction.natAbs < 10 ^ places) :
    (ofParts hplaces whole hpos hfits).text = joined places whole fraction := by
  rw [text, eq_joined_iff, sign, numeral]
  refine ⟨?_, rfl⟩
  by_cases hneg : whole < 0
  · simp only [ofParts, hneg, decide_true, if_true, List.singleton_append]
  · simp only [ofParts, hneg, decide_false, Bool.false_eq_true, if_false, List.nil_append]

/-- Whatever numeral the text is, its parts have the values of the integers. -/
theorem eq_of_text_eq_joined {n : FixedPoint places} (h : n.text = joined places whole fraction) :
    (n.negative = true ↔ whole < 0) ∧ n.wholeValue = whole.natAbs ∧
      0 ≤ fraction ∧ n.fractionValue = fraction.natAbs := by
  obtain ⟨hfront, hbehind⟩ := eq_joined_iff.mp h
  have hsign : n.negative = true ↔ whole < 0 := by
    rw [← head?_numeral, ← hfront]
    exact n.head?_sign_whole.symm
  have hwhole := n.read_sign_whole
  rw [hfront, read_numeral, Option.some_inj] at hwhole
  have hfraction := n.read_fraction
  rw [hbehind] at hfraction
  have hpos := (exists_readNat_padded_iff places fraction).mp ⟨_, hfraction⟩
  rw [readNat_padded places hpos, Option.some_inj] at hfraction
  refine ⟨hsign, ?_, hpos, hfraction.symm⟩
  split at hwhole <;> omega

/-- A sign counts for the fraction too. -/
theorem scaled_eq_iff {n : FixedPoint places} (h : n.text = joined places whole fraction) :
    n.scaled = whole * 10 ^ places + fraction ↔ 0 ≤ whole ∨ fraction = 0 := by
  obtain ⟨hsign, hwhole, hpos, hfraction⟩ := eq_of_text_eq_joined h
  have hfraction' : (fraction.natAbs : ℤ) = fraction := by omega
  rw [scaled, hwhole, hfraction, hfraction']
  by_cases hneg : whole < 0
  · have hwhole' : (whole.natAbs : ℤ) = -whole := by omega
    rw [if_pos (hsign.mpr hneg), hwhole', neg_mul]
    generalize whole * 10 ^ places = front
    omega
  · have hwhole' : (whole.natAbs : ℤ) = whole := by omega
    rw [if_neg (mt hsign.mp hneg), hwhole']
    exact iff_of_true rfl (Or.inl (Int.not_lt.mp hneg))

end FixedPoint

/-- **Two integers that are written one by one** denote what they add up to exactly if the
second one has no sign, and the first one has none either unless the second one is zero. -/
theorem denotes_joined_iff {whole fraction : ℤ} (hplaces : 0 < places)
    (hfits : fraction.natAbs < 10 ^ places) :
    Denotes places (joined places whole fraction) (whole + fraction / 10 ^ places) ↔
      0 ≤ fraction ∧ (0 ≤ whole ∨ fraction = 0) := by
  have hpow := FixedPoint.ten_pow_ne_zero places
  have hsum : (whole + fraction / 10 ^ places : ℚ) =
      ((whole * 10 ^ places + fraction : ℤ) : ℚ) / 10 ^ places := by
    push_cast
    field_simp
  rw [hsum]
  constructor
  · rintro ⟨n, htext, hvalue⟩
    rw [n.value_eq_iff, FixedPoint.scaled_eq_iff htext] at hvalue
    obtain ⟨-, -, hpos, -⟩ := FixedPoint.eq_of_text_eq_joined htext
    exact ⟨hpos, hvalue⟩
  · rintro ⟨hpos, hsigns⟩
    have htext := @FixedPoint.text_ofParts places whole fraction hplaces hpos hfits
    refine ⟨FixedPoint.ofParts hplaces whole hpos hfits, htext, ?_⟩
    rw [FixedPoint.value_eq_iff, FixedPoint.scaled_eq_iff htext]
    exact hsigns

end Decimal
