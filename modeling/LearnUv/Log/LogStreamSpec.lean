import LearnUv.Log.LogStream
import LearnUv.Library.AbortingRun
import Mathlib.Tactic.IntervalCases

/-!
# What an insertion does

An insertion appends the whole text of the piece, or it leaves the stream as it is.  Which
of the two is decided by what is free in the buffer, in one way for numbers, which are
formatted in place, and in another for everything else.

## Main Definitions

* `FixedBuffer.Appended` — what was in a buffer, and a text behind it
* `Piece.text`, `Piece.Admitted` — what a piece puts into the stream, and when

## Main Results

* `convert_spec` — `convert` stores the digits of the absolute value, and a NUL
* `snprintf_spec` — what is shorter than the limit is stored whole
* `insert_spec` — an insertion appends the text of an admitted piece, and nothing else
-/

namespace LearnUv.Log

/-! ## The buffer -/

namespace FixedBuffer

variable {SIZE : ℕ}

/-- `b'` holds what `b` holds, and `text` behind it. -/
structure Appended (b : FixedBuffer SIZE) (text : List UInt8) (b' : FixedBuffer SIZE) :
    Prop where
  cur : b'.cur_ = b.cur_ + text.length
  bytes : b'.data_.bytes.take b'.cur_ = b.data_.bytes.take b.cur_ ++ text

/-- Nothing is appended by leaving the buffer as it is. -/
theorem appended_nil (b : FixedBuffer SIZE) : b.Appended [] b := ⟨rfl, by simp⟩

/-- No conversion to `int` loses anything: the length is the position of the pointer, -/
theorem toInt_length (hsize : SIZE < 2 ^ 31) (b : FixedBuffer SIZE) :
    b.length.toInt = b.cur_ := by
  have hcur := b.cur_le
  exact Int32.toInt_ofNat_of_lt (by omega)

/-- and the free space is what is behind it, -/
theorem toInt_avail (hsize : SIZE < 2 ^ 31) (b : FixedBuffer SIZE) :
    b.avail.toInt = ((SIZE - b.cur_ : ℕ) : ℤ) :=
  Int32.toInt_ofNat_of_lt (by omega)

/-- also after its conversion to a `size_t`. -/
theorem toNat_sizeOfInt_avail (hsize : SIZE < 2 ^ 31) (b : FixedBuffer SIZE) :
    (sizeOfInt b.avail).toNat = SIZE - b.cur_ := by
  have havail := b.toInt_avail hsize
  rw [toNat_sizeOfInt (by omega), havail, Int.toNat_natCast]

/-- `toString` gives what is in front of the pointer. -/
theorem toString_eq (hsize : SIZE < 2 ^ 31) (b : FixedBuffer SIZE) :
    b.toString = b.data_.bytes.take b.cur_ := by
  have hlength := b.toInt_length hsize
  rw [toString, toNat_sizeOfInt (by omega), hlength, Int.toNat_natCast]

theorem Appended.toString (hsize : SIZE < 2 ^ 31) {b b' : FixedBuffer SIZE}
    {text : List UInt8} (h : b.Appended text b') : b'.toString = b.toString ++ text := by
  rw [b'.toString_eq hsize, b.toString_eq hsize, h.bytes]

/-- **Advancing the pointer** over a text that was stored at it, with something behind it
that stays unused. -/
theorem add_spec (b : FixedBuffer SIZE) {data : CharArray SIZE} {text unused : List UInt8}
    {len : UInt64} (hdata : data.bytes = overwrite b.data_.bytes b.cur_ (text ++ unused))
    (hlen : len.toNat = text.length) (hfits : b.cur_ + text.length ≤ SIZE) :
    ∃ b', add ⟨data, b.cur_, b.cur_le⟩ len = .ok b' ∧ b.Appended text b' := by
  have hroom : b.cur_ + len.toNat ≤ SIZE := by rw [hlen]; exact hfits
  refine ⟨⟨data, b.cur_ + len.toNat, hroom⟩, dif_pos hroom, ?_, ?_⟩
  · show b.cur_ + len.toNat = _
    rw [hlen]
  · show data.bytes.take (b.cur_ + len.toNat) = _
    rw [hdata, hlen]
    refine take_overwrite_append ?_
    rw [b.data_.length_eq]
    exact b.cur_le

/-- **`append`** takes all of the bytes or none, and the last byte of the array stays
free. -/
theorem append_spec (hsize : SIZE < 2 ^ 31) (b : FixedBuffer SIZE) {buf : List UInt8}
    {len : UInt64} (hbuf : len.toNat ≤ buf.length) :
    ∃ b', b.append buf len = .ok b' ∧
      b.Appended (if b.cur_ + len.toNat < SIZE then buf.take len.toNat else []) b' := by
  have hfits_iff : len < sizeOfInt b.avail ↔ b.cur_ + len.toNat < SIZE := by
    rw [UInt64.lt_iff_toNat_lt, b.toNat_sizeOfInt_avail hsize]
    omega
  rw [append]
  by_cases hroom : b.cur_ + len.toNat < SIZE
  · have htake : (buf.take len.toNat).length = len.toNat := by
      rw [List.length_take, Nat.min_eq_left hbuf]
    have hread : readBytes buf len = .ok (buf.take len.toNat) := if_pos hbuf
    have hfits : b.cur_ + (buf.take len.toNat).length ≤ SIZE := by omega
    obtain ⟨data, hstore, hdata⟩ := b.data_.store_of_fits hfits
    rw [← List.append_nil (buf.take len.toNat)] at hdata
    obtain ⟨b', hadd, happended⟩ := b.add_spec hdata htake.symm hfits
    refine ⟨b', ?_, ?_⟩
    · rw [if_pos (hfits_iff.mpr hroom), hread, AbortingRun.ok_bind, hstore, AbortingRun.ok_bind,
        hadd]
    · rw [if_pos hroom]
      exact happended
  · refine ⟨b, ?_, ?_⟩
    · rw [if_neg (mt hfits_iff.mp hroom)]
      rfl
    · rw [if_neg hroom]
      exact b.appended_nil

end FixedBuffer

/-! ## The digits -/

/-- The digit table is mirrored: a negative remainder gives the digit of its absolute
value. -/
theorem zeroAt_eq {lsd : Int32} (h : lsd.toInt.natAbs < 10) :
    zeroAt lsd = .ok (Decimal.digit lsd.toInt.natAbs) := by
  rw [zeroAt, if_pos (by omega)]
  -- the 19 remainders are the positions of the table
  generalize lsd.toInt = d at h ⊢
  have hlow : -9 ≤ d := by omega
  have hhigh : d ≤ 9 := by omega
  interval_cases d <;> rfl

/-- What `convert` leaves in the buffer: digits, and no sign. -/
def convertText (v : Int32) : List UInt8 := Decimal.natNumeral v.toInt.natAbs

/-- An `int` has at most ten digits. -/
theorem length_convertText_le (v : Int32) : (convertText v).length ≤ 10 := by
  have hlow := v.le_toInt
  have hhigh := v.toInt_lt
  exact Decimal.length_natNumeral_le (by decide) (by omega)

/-- The loop of `convert` stops at the first digit -/
theorem convertText_of_div_eq_zero {v : Int32} (h : v / 10 = 0) :
    convertText v = [Decimal.digit (v % 10).toInt.natAbs] := by
  have hquot := natAbs_div_ten v
  rw [h, Int32.toInt_zero, Int.natAbs_zero] at hquot
  rw [convertText, Decimal.natNumeral_of_lt (by omega), toInt_mod_ten, Int.natAbs_tmod]
  congr 2
  show _ = _ % 10
  omega

/-- and puts every other one in front of the digits behind it. -/
theorem convertText_of_div_ne_zero {v : Int32} (h : v / 10 ≠ 0) :
    convertText v = convertText (v / 10) ++ [Decimal.digit (v % 10).toInt.natAbs] := by
  have hquot := natAbs_div_ten v
  have hne : (v / 10).toInt ≠ 0 := fun hzero => h (Int32.toInt_inj.mp hzero)
  rw [convertText, Decimal.natNumeral_of_le (by omega), convertText, hquot, toInt_mod_ten,
    Int.natAbs_tmod]
  rfl

section Convert

variable {n : ℕ}

/-- **The loop** stores the digits, the last one first. -/
theorem convertLoop_spec (array : CharArray n) (p : ℕ) (i : Int32)
    (hfits : p + (convertText i).length ≤ n) :
    ∃ array', convertLoop array p i = .ok (array', p + (convertText i).length) ∧
      array'.bytes = overwrite array.bytes p (convertText i).reverse := by
  have hmod : (i % 10).toInt.natAbs < 10 := by
    rw [toInt_mod_ten, Int.natAbs_tmod]
    exact Nat.mod_lt _ (by decide)
  have hdigit := zeroAt_eq hmod
  rw [convertLoop]
  by_cases hquot : i / 10 = 0
  · have htext := convertText_of_div_eq_zero hquot
    rw [htext] at hfits ⊢
    obtain ⟨array', hstore, hbytes⟩ := array.store_of_fits hfits
    refine ⟨array', ?_, hbytes⟩
    simp only [hdigit, hstore, AbortingRun.ok_bind, dif_neg (not_not_intro hquot)]
    rfl
  · have htext := convertText_of_div_ne_zero hquot
    rw [htext, List.length_append, List.length_singleton] at hfits
    have hroom : p + [Decimal.digit (i % 10).toInt.natAbs].length ≤ n := by
      rw [List.length_singleton]
      omega
    obtain ⟨array₁, hstore, hbytes₁⟩ := array.store_of_fits hroom
    obtain ⟨array', hloop, hbytes⟩ := convertLoop_spec array₁ (p + 1) (i / 10) (by omega)
    refine ⟨array', ?_, ?_⟩
    · simp only [hdigit, hstore, AbortingRun.ok_bind, dif_pos hquot, hloop, htext,
        List.length_append, List.length_singleton]
      congr 2
      omega
    · -- this digit and those of the quotient are stored side by side
      have hboth : p + [Decimal.digit (i % 10).toInt.natAbs].length +
          (convertText (i / 10)).reverse.length ≤ array.bytes.length := by
        rw [List.length_singleton, List.length_reverse, array.length_eq]
        omega
      have hjoin := overwrite_append hboth
      rw [List.length_singleton] at hjoin
      rw [hbytes, hbytes₁, hjoin, htext, List.reverse_append]
      rfl
termination_by i.toInt.natAbs
decreasing_by
  have hne : (i / 10).toInt ≠ 0 := fun hzero => hquot (Int32.toInt_inj.mp hzero)
  have habs := natAbs_div_ten i
  omega

/-- **`convert`** stores the digits in their order and a NUL, and returns how many digits
there are. -/
theorem convert_spec (array : CharArray n) (buf : ℕ) (v : Int32)
    (hfits : buf + (convertText v).length + 1 ≤ n) :
    ∃ array' len, convert array buf v = .ok (array', len) ∧
      len.toNat = (convertText v).length ∧
        array'.bytes = overwrite array.bytes buf (convertText v ++ [0]) := by
  have hlength := length_convertText_le v
  obtain ⟨array₁, hloop, hbytes₁⟩ := convertLoop_spec array buf v (by omega)
  have hnul : buf + (convertText v).length + [(0 : UInt8)].length ≤ n := hfits
  obtain ⟨array₂, hstore, hbytes₂⟩ := array₁.store_of_fits hnul
  have hjoined : array₂.bytes = overwrite array.bytes buf ((convertText v).reverse ++ [0]) := by
    have hboth : buf + (convertText v).reverse.length + [(0 : UInt8)].length ≤
        array.bytes.length := by
      rw [List.length_reverse, array.length_eq]
      exact hnul
    have hjoin := overwrite_append hboth
    rw [List.length_reverse] at hjoin
    rw [hbytes₂, hbytes₁, hjoin]
  -- what is reversed is what the loop has stored, without the NUL
  have hdigits : (array₂.bytes.take (buf + (convertText v).length)).drop buf =
      (convertText v).reverse := by
    have hbuf : buf ≤ array.bytes.length := by
      rw [array.length_eq]
      omega
    have hfront : (array.bytes.take buf).length = buf := by
      rw [List.length_take, Nat.min_eq_left hbuf]
    have htake : array₂.bytes.take (buf + (convertText v).reverse.length) =
        array.bytes.take buf ++ (convertText v).reverse := by
      rw [hjoined]
      exact take_overwrite_append hbuf
    rw [List.length_reverse] at htake
    rw [htake]
    nth_rewrite 1 [← hfront]
    exact List.drop_left
  have hlast : buf + (convertText v).length ≤ n := by omega
  obtain ⟨array', hreverse, hbytes⟩ := array₂.reverse_of_fits (Nat.le_add_right buf _) hlast
  refine ⟨array', UInt64.ofNat (convertText v).length, ?_, ?_, ?_⟩
  · simp only [convert, hloop, hstore, hreverse, AbortingRun.ok_bind, Nat.add_sub_cancel_left]
    rfl
  · rw [UInt64.toNat_ofNat', Nat.mod_eq_of_lt (by omega)]
  · rw [hbytes, hdigits, List.reverse_reverse, hjoined]
    refine overwrite_overwrite ?_ (List.length_reverse).symm
    rw [array.length_eq]
    omega

/-- **`snprintf`** stores all of a text that is shorter than its limit, and a NUL. -/
theorem snprintf_spec (array : CharArray n) {buf size : ℕ} {text : List UInt8}
    (htext : text.length < size) (hfits : buf + text.length + 1 ≤ n) :
    ∃ array', snprintf array buf size text = .ok (array', Int32.ofNat text.length) ∧
      array'.bytes = overwrite array.bytes buf (cStr text) := by
  have hall : text.take (size - 1) = text := List.take_of_length_le (by omega)
  have hstored : buf + (cStr text).length ≤ n := by
    rw [cStr, List.length_append, List.length_singleton]
    omega
  obtain ⟨array', hstore, hbytes⟩ := array.store_of_fits hstored
  refine ⟨array', ?_, hbytes⟩
  rw [snprintf, hall, hstore]
  rfl

end Convert

/-! ## The insertion operators -/

theorem kSmallBuffer_lt : kSmallBuffer < 2 ^ 31 := by decide

/-- Numbers are formatted in place when there is room for the longest of them. -/
theorem kMaxNumericSize_le_avail_iff (b : FixedBuffer kSmallBuffer) :
    b.avail ≥ kMaxNumericSize ↔ b.cur_ + 32 ≤ kSmallBuffer := by
  have havail := b.toInt_avail kSmallBuffer_lt
  have hcur := b.cur_le
  have hmax : kMaxNumericSize.toInt = 32 := rfl
  rw [ge_iff_le, Int32.le_iff_toInt_le, havail, hmax]
  omega

namespace LogStream

/-- **An `int`** is appended as the digits of its absolute value. -/
theorem insertInt_spec (s : LogStream) (v : Int32) :
    ∃ t, s.insertInt v = .ok t ∧
      s.buffer_.Appended
        (if s.buffer_.avail ≥ kMaxNumericSize then convertText v else []) t.buffer_ := by
  rw [insertInt, formatInteger]
  by_cases hroom : s.buffer_.avail ≥ kMaxNumericSize
  · have hcur := (kMaxNumericSize_le_avail_iff s.buffer_).mp hroom
    have hlength := length_convertText_le v
    obtain ⟨data, len, hconvert, hlen, hdata⟩ :=
      convert_spec s.buffer_.data_ s.buffer_.cur_ v (by omega)
    obtain ⟨b, hadd, happended⟩ := s.buffer_.add_spec hdata hlen (by omega)
    refine ⟨⟨b⟩, ?_, ?_⟩
    · simp only [if_pos hroom, hconvert, hadd, AbortingRun.ok_bind]
      rfl
    · rw [if_pos hroom]
      exact happended
  · refine ⟨s, ?_, ?_⟩
    · rw [if_neg hroom]
      rfl
    · rw [if_neg hroom]
      exact s.buffer_.appended_nil

section Double

variable {Double : Type} {printed : Double → List UInt8}

/-- **A `double`** is appended as what `snprintf` prints for it. -/
theorem insertDouble_spec (s : LogStream) {v : Double} (hprinted : (printed v).length < 32) :
    ∃ t, s.insertDouble printed v = .ok t ∧
      s.buffer_.Appended
        (if s.buffer_.avail ≥ kMaxNumericSize then printed v else []) t.buffer_ := by
  rw [insertDouble]
  by_cases hroom : s.buffer_.avail ≥ kMaxNumericSize
  · have hcur := (kMaxNumericSize_le_avail_iff s.buffer_).mp hroom
    have hmax : (sizeOfInt kMaxNumericSize).toNat = 32 := rfl
    have hfits : s.buffer_.cur_ + (printed v).length + 1 ≤ kSmallBuffer := by omega
    obtain ⟨data, hprint, hdata⟩ := snprintf_spec s.buffer_.data_ hprinted hfits
    have hlen : (sizeOfInt (Int32.ofNat (printed v).length)).toNat = (printed v).length := by
      have hint : (Int32.ofNat (printed v).length).toInt = (printed v).length :=
        Int32.toInt_ofNat_of_lt (by omega)
      rw [toNat_sizeOfInt (by omega), hint, Int.toNat_natCast]
    obtain ⟨b, hadd, happended⟩ := s.buffer_.add_spec hdata hlen (by omega)
    refine ⟨⟨b⟩, ?_, ?_⟩
    · simp only [if_pos hroom, hmax, hprint, hadd, AbortingRun.ok_bind]
      rfl
    · rw [if_pos hroom]
      exact happended
  · refine ⟨s, ?_, ?_⟩
    · rw [if_neg hroom]
      rfl
    · rw [if_neg hroom]
      exact s.buffer_.appended_nil

end Double

/-- **A C string** is appended without its NUL. -/
theorem insertCStr_some_spec (s : LogStream) (str : CString) :
    ∃ t, s.insertCStr (some str) = .ok t ∧
      s.buffer_.Appended
        (if s.buffer_.cur_ + (cString str.bytes).length < kSmallBuffer then cString str.bytes
          else []) t.buffer_ := by
  have hle := length_cString_le str.bytes
  have hmax := str.length_le
  have hlen : (UInt64.ofNat (cString str.bytes).length).toNat = (cString str.bytes).length := by
    rw [UInt64.toNat_ofNat', Nat.mod_eq_of_lt]
    unfold ptrdiffMax at hmax
    omega
  have hstrlen : strlen str.bytes = .ok (UInt64.ofNat (cString str.bytes).length) :=
    if_pos str.zero_mem
  have hinside : (UInt64.ofNat (cString str.bytes).length).toNat ≤ str.bytes.length := by
    rw [hlen]
    exact hle
  obtain ⟨b, happend, happended⟩ := s.buffer_.append_spec kSmallBuffer_lt hinside
  rw [hlen, take_length_cString] at happended
  refine ⟨⟨b⟩, ?_, happended⟩
  rw [insertCStr, hstrlen, AbortingRun.ok_bind, happend]
  rfl

/-- A null pointer is inserted as `"(null)"`. -/
theorem insertCStr_none_spec (s : LogStream) :
    ∃ t, s.insertCStr none = .ok t ∧
      s.buffer_.Appended
        (if s.buffer_.cur_ + (literal "(null)").length < kSmallBuffer then literal "(null)"
          else []) t.buffer_ := by
  have hinside : (6 : UInt64).toNat ≤ (cStr (literal "(null)")).length := by decide
  obtain ⟨b, happend, happended⟩ := s.buffer_.append_spec kSmallBuffer_lt hinside
  refine ⟨⟨b⟩, ?_, happended⟩
  rw [insertCStr, happend]
  rfl

/-- **`append`** of a range of the data. -/
theorem append_spec (s : LogStream) {data : List UInt8} {len : Int32} (hlen : 0 ≤ len)
    (hdata : len.toInt.toNat ≤ data.length) :
    ∃ t, s.append data len = .ok t ∧
      s.buffer_.Appended
        (if s.buffer_.cur_ + len.toInt.toNat < kSmallBuffer then data.take len.toInt.toNat
          else []) t.buffer_ := by
  have hsize := toNat_sizeOfInt (Int32.le_iff_toInt_le.mp hlen)
  have hinside : (sizeOfInt len).toNat ≤ data.length := by
    rw [hsize]
    exact hdata
  obtain ⟨b, happend, happended⟩ := s.buffer_.append_spec kSmallBuffer_lt hinside
  rw [hsize] at happended
  refine ⟨⟨b⟩, ?_, happended⟩
  rw [append, happend]
  rfl

end LogStream

/-! ## Whole or not at all -/

section Pieces

variable {Double : Type} (printed : Double → List UInt8)

/-- The text of a piece. -/
def Piece.text : Piece Double → List UInt8
  | .cstr (some str) => cString str.bytes
  | .cstr none => literal "(null)"
  | .string str => cString str.bytes
  | .int v => convertText v
  | .double v => printed v
  | .append data len => data.take len.toInt.toNat

/-- There is room for the piece: for a number, room for the longest one. -/
def Piece.Admitted (s : LogStream) (piece : Piece Double) : Prop :=
  match piece with
  | .int _ => s.buffer_.avail ≥ kMaxNumericSize
  | .double _ => s.buffer_.avail ≥ kMaxNumericSize
  | piece => (piece.text printed).length < s.buffer_.avail.toInt

instance decidableAdmitted (s : LogStream) (piece : Piece Double) :
    Decidable (piece.Admitted printed s) :=
  match piece with
  | .int _ => inferInstanceAs (Decidable (_ ≥ _))
  | .double _ => inferInstanceAs (Decidable (_ ≥ _))
  | .cstr _ => inferInstanceAs (Decidable (_ < _))
  | .string _ => inferInstanceAs (Decidable (_ < _))
  | .append _ _ => inferInstanceAs (Decidable (_ < _))

/-- The range that is appended lies in the data. -/
def Piece.WellFormed : Piece Double → Prop
  | .append data len => 0 ≤ len ∧ len.toInt.toNat ≤ data.length
  | _ => True

variable {printed}

/-- **An insertion** appends the text of the piece if it is admitted, and nothing else. -/
theorem insert_spec (hprinted : ∀ v, (printed v).length < 32) (s : LogStream)
    {piece : Piece Double} (hwell : piece.WellFormed) :
    ∃ t, s.insert printed piece = .ok t ∧
      s.buffer_.Appended (if piece.Admitted printed s then piece.text printed else [])
        t.buffer_ := by
  have havail := s.buffer_.toInt_avail kSmallBuffer_lt
  have hcur := s.buffer_.cur_le
  have hfits_iff : ∀ l : ℕ, (l : ℤ) < s.buffer_.avail.toInt ↔ s.buffer_.cur_ + l < kSmallBuffer := by
    intro l
    rw [havail]
    omega
  cases piece with
  | cstr str =>
      cases str with
      | some str =>
          simp only [Piece.Admitted, Piece.text, hfits_iff]
          exact s.insertCStr_some_spec str
      | none =>
          simp only [Piece.Admitted, Piece.text, hfits_iff]
          exact s.insertCStr_none_spec
  | string str =>
      obtain ⟨t, hinsert, happended⟩ := s.insertCStr_some_spec str.c_str
      rw [show cString str.c_str.bytes = cString str.bytes from cString_cStr str.bytes]
        at happended
      simp only [Piece.Admitted, Piece.text, hfits_iff]
      exact ⟨t, hinsert, happended⟩
  | int v => exact s.insertInt_spec v
  | double v => exact s.insertDouble_spec (hprinted v)
  | append data len =>
      obtain ⟨hlen, hdata⟩ := hwell
      simp only [Piece.Admitted, Piece.text, hfits_iff, List.length_take, Nat.min_eq_left hdata]
      exact s.append_spec hlen hdata

end Pieces

end LearnUv.Log
