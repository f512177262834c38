import LearnUv.Log.LoggerSpec
import LearnUv.Library.FixedPoint

/-!
# `Timestamp::toString`

A time is a number of microseconds.  It is printed as the seconds, a point and what is left
of the microseconds, both as `/` and `%` give them.  These truncate, so what is left of a
negative time is negative too, and its sign is printed behind the point.

The text is as long as the numeral of the seconds, and seven characters more.  An `int64_t`
divided by a million has at most thirteen digits, so the array is never full, and the two
parts are found again in the text: what is behind the point has six digits, or six with a
sign.  That different times have different texts is read off the two parts, and holds for
negative times as well, although theirs are no numerals of the value.

## Main Definitions

* `Timestamp.toString`, `Timestamp.printed` — the member, and what its format prints
* `Timestamp.PrintsValue` — the text is a numeral of the time in seconds, and of no other time

## Main Results

* `Timestamp.toString_spec` — nothing of the text is cut off
* `Timestamp.toString_injective` — different times have different texts
* `Timestamp.printsValue_iff` — which times print their value
-/

namespace LearnUv.Log

namespace Timestamp

/-! ## The member -/

/-- `seconds`. -/
def seconds (t : Timestamp) : Int64 :=
  t.microSecondsSinceEpoch_ / kMircoSecondsPerSecond.toInt64

/-- `microseconds`. -/
def microseconds (t : Timestamp) : Int64 :=
  t.microSecondsSinceEpoch_ % kMircoSecondsPerSecond.toInt64

/-- What the format `"%" PRId64 ".%06" PRId64` gives. -/
def printed (t : Timestamp) : List UInt8 :=
  Decimal.numeral t.seconds.toInt ++ literal "." ++ Decimal.padded 6 t.microseconds.toInt

/-- `toString()`. -/
def toString (t : Timestamp) : Exec StdString := do
  let buf := CharArray.zeros 32
  let (buf, _) ← snprintf buf 0 (32 - 1) t.printed
  StdString.ofArray buf (by decide)

/-! ## What is printed -/

/-- The seconds are rounded towards zero, -/
theorem toInt_seconds (t : Timestamp) :
    t.seconds.toInt = t.microSecondsSinceEpoch_.toInt.tdiv (10 ^ 6) :=
  Int64.toInt_div_of_ne_right _ _ (by decide)

/-- and what is left of the microseconds has the sign of the time. -/
theorem toInt_microseconds (t : Timestamp) :
    t.microseconds.toInt = t.microSecondsSinceEpoch_.toInt.tmod (10 ^ 6) :=
  Int64.toInt_mod _ _

/-- The parts add up to the time. -/
theorem seconds_microseconds (t : Timestamp) :
    t.seconds.toInt * 10 ^ 6 + t.microseconds.toInt = t.microSecondsSinceEpoch_.toInt := by
  rw [toInt_seconds, toInt_microseconds, Int.mul_comm]
  exact Int.mul_tdiv_add_tmod _ _

/-- The part behind the point has at most six digits, -/
theorem natAbs_microseconds_lt (t : Timestamp) : t.microseconds.toInt.natAbs < 10 ^ 6 :=
  natAbs_mod_lt t.microSecondsSinceEpoch_

/-- and the part in front of it at most thirteen. -/
theorem natAbs_seconds_lt (t : Timestamp) : t.seconds.toInt.natAbs < 10 ^ 13 := by
  have hlow := t.microSecondsSinceEpoch_.le_toInt
  have hhigh := t.microSecondsSinceEpoch_.toInt_lt
  have hquot : t.seconds.toInt.natAbs = t.microSecondsSinceEpoch_.toInt.natAbs / 10 ^ 6 := by
    rw [toInt_seconds, Int.natAbs_tdiv]
    rfl
  omega

/-- What is printed are two integers with a point in between. -/
theorem printed_eq_joined (t : Timestamp) :
    t.printed = Decimal.joined 6 t.seconds.toInt t.microseconds.toInt := by
  rw [printed, Decimal.joined, List.append_assoc]
  rfl

/-- A sign and 13 digits, the point, and a sign and 6 digits. -/
theorem length_printed_le (t : Timestamp) : t.printed.length ≤ 22 := by
  have hseconds := Decimal.length_numeral_le (by decide) t.natAbs_seconds_lt
  have hrest := @Decimal.length_padded_le 6 6 _ (by decide) t.natAbs_microseconds_lt
  have hpoint : (literal ".").length = 1 := rfl
  rw [printed, List.length_append, List.length_append, hpoint]
  omega

/-- The text has no NUL, so the string made of it is the whole text. -/
theorem isPlain_printed (t : Timestamp) : IsPlain t.printed := by
  rw [printed, isPlain_append, isPlain_append]
  exact ⟨⟨isPlain_numeral _, by decide, by decide⟩, isPlain_padded _ _⟩

/-- **The whole text** fits into the array, and is returned. -/
theorem toString_spec (t : Timestamp) :
    ∃ str, t.toString = .ok str ∧ str.bytes = t.printed := by
  have hlength := t.length_printed_le
  obtain ⟨array, hprint, hbytes⟩ :=
    snprintf_spec (CharArray.zeros 32) (show t.printed.length < 32 - 1 by omega)
      (show 0 + t.printed.length + 1 ≤ 32 by omega)
  rw [overwrite_zero_cStr] at hbytes
  obtain ⟨str, hstr, hstring⟩ :=
    StdString.ofArray_spec array (by decide) t.isPlain_printed.1 hbytes
  refine ⟨str, ?_, hstring⟩
  simp only [toString, hprint, AbortingRun.ok_bind]
  exact hstr

/-- **Different times have different texts.** -/
theorem toString_injective {t t' : Timestamp} (h : t.toString = t'.toString) : t = t' := by
  obtain ⟨str, hstr, hbytes⟩ := t.toString_spec
  obtain ⟨str', hstr', hbytes'⟩ := t'.toString_spec
  have hsame : t.printed = t'.printed := by
    rw [hstr, hstr'] at h
    rw [← hbytes, ← hbytes', Except.ok.inj h]
  rw [printed_eq_joined, printed_eq_joined] at hsame
  obtain ⟨hseconds, hmicroseconds⟩ := Decimal.joined_injective hsame
  have htime : t.microSecondsSinceEpoch_.toInt = t'.microSecondsSinceEpoch_.toInt := by
    rw [← t.seconds_microseconds, ← t'.seconds_microseconds, hseconds, hmicroseconds]
  rw [Timestamp.mk.injEq]
  exact Int64.toInt_inj.mp htime

/-! ## What the text denotes -/

/-- The time in seconds. -/
def inSeconds (t : Timestamp) : ℚ := t.microSecondsSinceEpoch_.toInt / 10 ^ 6

/-- The two parts add up to the time, whatever their signs are. -/
theorem inSeconds_eq (t : Timestamp) :
    t.inSeconds = t.seconds.toInt + t.microseconds.toInt / 10 ^ 6 := by
  rw [inSeconds, ← t.seconds_microseconds]
  push_cast
  ring

/-- The two parts have the sign of the time. -/
theorem signs_iff (t : Timestamp) :
    (0 ≤ t.microseconds.toInt ∧ (0 ≤ t.seconds.toInt ∨ t.microseconds.toInt = 0)) ↔
      0 ≤ t.microSecondsSinceEpoch_.toInt ∨ 10 ^ 6 ∣ t.microSecondsSinceEpoch_.toInt := by
  have hparts := t.seconds_microseconds
  have hzero : t.microseconds.toInt = 0 ↔ 10 ^ 6 ∣ t.microSecondsSinceEpoch_.toInt := by
    rw [toInt_microseconds, Int.dvd_iff_tmod_eq_zero]
  constructor
  · rintro ⟨hmicroseconds, hseconds | hmultiple⟩
    · left
      omega
    · exact Or.inr (hzero.mp hmultiple)
  · rintro (hpos | hmultiple)
    · have hseconds : 0 ≤ t.seconds.toInt := by
        rw [toInt_seconds]
        exact Int.tdiv_nonneg hpos (by decide)
      have hmicroseconds : 0 ≤ t.microseconds.toInt := by
        rw [toInt_microseconds]
        exact Int.tmod_nonneg _ hpos
      exact ⟨hmicroseconds, Or.inl hseconds⟩
    · have hmicroseconds := hzero.mpr hmultiple
      exact ⟨hmicroseconds.ge, Or.inr hmicroseconds⟩

/-- The text denotes the time exactly when no sign stands behind the point. -/
theorem denotes_printed_iff (t : Timestamp) :
    Decimal.Denotes 6 t.printed t.inSeconds ↔
      0 ≤ t.microSecondsSinceEpoch_.toInt ∨ 10 ^ 6 ∣ t.microSecondsSinceEpoch_.toInt := by
  rw [printed_eq_joined, inSeconds_eq, ← signs_iff]
  exact Decimal.denotes_joined_iff (by decide) t.natAbs_microseconds_lt

example : (⟨-1000000⟩ : Timestamp).printed = literal "-1.000000" := by decide

/-- What is returned is all that the format prints, a numeral of the time in seconds with six
places, and is not returned for any other time. -/
structure PrintsValue (t : Timestamp) : Prop where
  numeral : ∃ str, t.toString = .ok str ∧ str.bytes = t.printed ∧
    Decimal.Denotes 6 str.bytes t.inSeconds
  distinct : ∀ t' : Timestamp, t'.toString = t.toString → t' = t

/-- **A time prints its value** exactly if it is not negative, or a whole number of
seconds. -/
theorem printsValue_iff (t : Timestamp) :
    t.PrintsValue ↔
      0 ≤ t.microSecondsSinceEpoch_.toInt ∨ 10 ^ 6 ∣ t.microSecondsSinceEpoch_.toInt := by
  rw [← denotes_printed_iff]
  constructor
  · rintro ⟨⟨str, -, hbytes, hdenotes⟩, -⟩
    rw [← hbytes]
    exact hdenotes
  · intro hdenotes
    obtain ⟨str, hstr, hbytes⟩ := t.toString_spec
    refine ⟨⟨str, hstr, hbytes, ?_⟩, fun t' => toString_injective⟩
    rw [hbytes]
    exact hdenotes

/-- Five microseconds before the epoch. -/
theorem not_printsValue_minusFive :
    (∃ str, (⟨-5⟩ : Timestamp).toString = .ok str ∧ str.bytes = literal "0.-00005") ∧
      ¬(⟨-5⟩ : Timestamp).PrintsValue := by
  constructor
  · obtain ⟨str, hstr, hbytes⟩ := toString_spec ⟨-5⟩
    exact ⟨str, hstr, hbytes.trans (by decide)⟩
  · rintro ⟨⟨str, -, hbytes, hdenotes⟩, -⟩
    rw [hbytes, denotes_printed_iff] at hdenotes
    exact absurd hdenotes (by decide)

end Timestamp

end LearnUv.Log
