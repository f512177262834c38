import LearnUv.Log.LogStreamSpec

/-!
# Lines that are put together

A line is a sequence of insertions into an empty stream.  None of them stores outside of
the array, and none is cut: a piece that does not fit is left out as a whole.  Integers are
logged without their sign.

Both admission tests of the source leave more room than the piece needs: a number is admitted
when 32 bytes are free, of which it takes fewer, and a text when its length is less than what
is free, so that the last byte of the array is never taken (`admitted_lt`).  With that bound
as the invariant every insertion returns, and what is in front of the pointer stays.

That an integer loses its sign is no matter of room: `convert` takes the digits of the
absolute value, and nothing stores a sign in front of them.

## Main Definitions

* `Kept` — what is promised of an insertion
* `LogStream.LogsNumeral` — an `int` is logged as its numeral

## Main Results

* `insert_kept` — over every sequence of insertions, none overruns or tears a piece
* `LogStream.insertInt_faithful_iff` — an `int` is logged as its numeral exactly when it is
  not negative
-/

namespace LearnUv.Log

section Pieces

variable {Double : Type} (printed : Double → List UInt8)

/-- What is promised of the insertion that leads from `s` to `t`. -/
structure Kept (s : LogStream) (piece : Piece Double) (t : LogStream) : Prop where
  length_nonneg : 0 ≤ t.buffer_.length
  length_le : t.buffer_.length ≤ 4095
  /-- The bytes in front of the pointer stay what they are. -/
  unchanged : t.buffer_.data_.bytes.take s.buffer_.cur_ =
    s.buffer_.data_.bytes.take s.buffer_.cur_
  /-- The whole text is added, or nothing. -/
  whole : t.buffer_.toString =
    s.buffer_.toString ++ if piece.Admitted printed s then piece.text printed else []

variable {printed}

/-- An admitted text ends in front of the last byte of the array. -/
theorem admitted_lt (hprinted : ∀ v, (printed v).length < 32) {s : LogStream}
    {piece : Piece Double} (h : piece.Admitted printed s) :
    s.buffer_.cur_ + (piece.text printed).length < kSmallBuffer := by
  have havail := s.buffer_.toInt_avail kSmallBuffer_lt
  have hcur := s.buffer_.cur_le
  cases piece with
  | int v =>
      have hroom := (kMaxNumericSize_le_avail_iff s.buffer_).mp h
      have hlength := length_convertText_le v
      show s.buffer_.cur_ + (convertText v).length < kSmallBuffer
      omega
  | double v =>
      have hroom := (kMaxNumericSize_le_avail_iff s.buffer_).mp h
      have hlength := hprinted v
      show s.buffer_.cur_ + (printed v).length < kSmallBuffer
      omega
  | cstr str =>
      simp only [Piece.Admitted, havail] at h
      omega
  | string str =>
      simp only [Piece.Admitted, havail] at h
      omega
  | append data len =>
      simp only [Piece.Admitted, havail] at h
      omega

/-- An insertion that appends the text of the piece, if it is admitted, keeps the promise,
and leaves room for a NUL. -/
theorem kept_of_appended (hprinted : ∀ v, (printed v).length < 32) {s t : LogStream}
    {piece : Piece Double} (hs : s.buffer_.cur_ < kSmallBuffer)
    (happended : s.buffer_.Appended
      (if piece.Admitted printed s then piece.text printed else []) t.buffer_) :
    t.buffer_.cur_ < kSmallBuffer ∧ Kept printed s piece t := by
  have hlength := t.buffer_.toInt_length kSmallBuffer_lt
  have hcur := happended.cur
  have hlt : t.buffer_.cur_ < kSmallBuffer := by
    rw [hcur]
    split
    · next hkept => exact admitted_lt hprinted hkept
    · exact hs
  refine ⟨hlt, ?_⟩
  constructor
  · rw [Int32.le_iff_toInt_le, hlength]
    exact Int.natCast_nonneg _
  · rw [Int32.le_iff_toInt_le, hlength]
    have hmax : (4095 : Int32).toInt = ((kSmallBuffer - 1 : ℕ) : ℤ) := rfl
    omega
  · have hbytes := congrArg (List.take s.buffer_.cur_) happended.bytes
    rw [List.take_take, Nat.min_eq_left (by omega)] at hbytes
    rw [hbytes, List.take_append_of_le_length, List.take_take, Nat.min_self]
    rw [List.length_take, s.buffer_.data_.length_eq]
    omega
  · exact happended.toString kSmallBuffer_lt

/-- The insertions into a stream that has room for a NUL all return, and keep the promise. -/
theorem eachStep_kept (hprinted : ∀ v, (printed v).length < 32) {s : LogStream}
    (hs : s.buffer_.cur_ < kSmallBuffer) {pieces : List (Piece Double)}
    (hwell : ∀ piece ∈ pieces, piece.WellFormed) :
    AbortingRun.EachStep (LogStream.insert printed)
      (fun s piece => ∃ t, s.insert printed piece = .ok t ∧ Kept printed s piece t) s pieces := by
  induction pieces generalizing s with
  | nil => trivial
  | cons piece pieces ih =>
      obtain ⟨t, hinsert, happended⟩ :=
        insert_spec hprinted s (hwell piece List.mem_cons_self)
      obtain ⟨ht, hkept⟩ := kept_of_appended hprinted hs happended
      refine ⟨⟨t, hinsert, hkept⟩, ?_⟩
      intro u hu
      obtain rfl := AbortingRun.ok_unique hu hinsert
      exact ih ht fun piece hmem => hwell piece (List.mem_cons_of_mem _ hmem)

/-- **No insertion overruns the buffer or tears a piece**, whatever was inserted before:
each one returns, which it does only if it stores inside the array, and keeps its
promise. -/
theorem insert_kept (hprinted : ∀ v, (printed v).length < 32)
    (memory : CharArray kSmallBuffer) (pieces : List (Piece Double))
    (hwell : ∀ piece ∈ pieces, piece.WellFormed) :
    AbortingRun.EachStep (LogStream.insert printed)
      (fun s piece => ∃ t, s.insert printed piece = .ok t ∧ Kept printed s piece t)
      (.init memory) pieces :=
  eachStep_kept hprinted (show 0 < kSmallBuffer by decide) hwell

end Pieces

/-- The doubles `0` to `9`, and what is printed for them. -/
def printedSmall (d : Fin 10) : List UInt8 := [Decimal.digit d]

theorem length_printedSmall_lt (d : Fin 10) : (printedSmall d).length < 32 :=
  show 1 < 32 by decide

/-- A line with a piece of each kind, one of them a null pointer. -/
theorem insert_kept_greeting :
    AbortingRun.EachStep (LogStream.insert printedSmall)
      (fun s piece => ∃ t, s.insert printedSmall piece = .ok t ∧ Kept printedSmall s piece t)
      (.init (CharArray.zeros kSmallBuffer))
      [.string ⟨literal "Hello world ", by decide⟩, .int 100, .double 7, .cstr none,
        .append (literal "one line log") 3] :=
  insert_kept length_printedSmall_lt _ _ (by
    intro piece hmem
    rcases List.mem_cons.mp hmem with rfl | hmem
    · trivial
    rcases List.mem_cons.mp hmem with rfl | hmem
    · trivial
    rcases List.mem_cons.mp hmem with rfl | hmem
    · trivial
    rcases List.mem_cons.mp hmem with rfl | hmem
    · trivial
    · obtain rfl := List.mem_singleton.mp hmem
      exact ⟨by decide, by decide⟩)

/-! ## Integers -/

namespace LogStream

/-- The `int` is logged as its canonical numeral, which is read back as the number, and
`convert` returns the length of it. -/
def LogsNumeral (s : LogStream) (v : Int32) : Prop :=
  ∃ t text array len, s.insertInt v = .ok t ∧
    t.buffer_.toString = s.buffer_.toString ++ text ∧
    text = Decimal.numeral v.toInt ∧ Decimal.read text = some v.toInt ∧
    convert s.buffer_.data_ s.buffer_.cur_ v = .ok (array, len) ∧ len.toNat = text.length

variable {s : LogStream}

/-- With room for a number the digits of its absolute value are appended. -/
theorem insertInt_of_room (hroom : s.buffer_.avail ≥ kMaxNumericSize) (v : Int32) :
    ∃ t, s.insertInt v = .ok t ∧ t.buffer_.toString = s.buffer_.toString ++ convertText v := by
  obtain ⟨t, hinsert, happended⟩ := s.insertInt_spec v
  rw [if_pos hroom] at happended
  exact ⟨t, hinsert, happended.toString kSmallBuffer_lt⟩

/-- The digits of the absolute value are the numeral of the `int` exactly when it has no
sign. -/
theorem logsNumeral_iff (hroom : s.buffer_.avail ≥ kMaxNumericSize) (v : Int32) :
    s.LogsNumeral v ↔ 0 ≤ v := by
  have hsign : 0 ≤ v ↔ convertText v = Decimal.numeral v.toInt := by
    rw [convertText, Decimal.natNumeral_eq_numeral_iff, Int32.le_iff_toInt_le, Int32.toInt_zero]
  obtain ⟨t, hinsert, hstring⟩ := insertInt_of_room hroom v
  rw [hsign]
  constructor
  · rintro ⟨u, text, -, -, hinsert', hstring', htext, -⟩
    obtain rfl := AbortingRun.ok_unique hinsert hinsert'
    rw [hstring', List.append_right_inj] at hstring
    rw [← hstring, htext]
  · intro htext
    have hcur := (kMaxNumericSize_le_avail_iff s.buffer_).mp hroom
    have hlength := length_convertText_le v
    obtain ⟨array, len, hconvert, hlen, -⟩ :=
      convert_spec s.buffer_.data_ s.buffer_.cur_ v (by omega)
    refine ⟨t, convertText v, array, len, hinsert, hstring, htext, ?_, hconvert, hlen⟩
    rw [htext, Decimal.read_numeral]

/-- **An `int` is logged as its numeral exactly when it is not negative.**  A negative one
is logged like its absolute value, so two different ones are told apart exactly when their
absolute values differ. -/
theorem insertInt_faithful_iff (hroom : s.buffer_.avail ≥ kMaxNumericSize) (v w : Int32) :
    (s.LogsNumeral v ↔ 0 ≤ v) ∧
      ((∃ t u, s.insertInt v = .ok t ∧ s.insertInt w = .ok u ∧
        t.buffer_.toString ≠ u.buffer_.toString) ↔ v.toInt.natAbs ≠ w.toInt.natAbs) := by
  refine ⟨logsNumeral_iff hroom v, ?_⟩
  obtain ⟨t, hinsert, hstring⟩ := insertInt_of_room hroom v
  obtain ⟨u, hinsert', hstring'⟩ := insertInt_of_room hroom w
  constructor
  · rintro ⟨t', u', ht, hu, hne⟩ habs
    obtain rfl := AbortingRun.ok_unique hinsert ht
    obtain rfl := AbortingRun.ok_unique hinsert' hu
    apply hne
    rw [hstring, hstring', convertText, convertText, habs]
  · intro habs
    refine ⟨t, u, hinsert, hinsert', ?_⟩
    rw [hstring, hstring', Ne, List.append_right_inj]
    exact fun heq => habs (Decimal.natNumeral_injective heq)

/-- An empty stream has room for a number. -/
theorem avail_init (memory : CharArray kSmallBuffer) :
    (init memory).buffer_.avail ≥ kMaxNumericSize :=
  (kMaxNumericSize_le_avail_iff _).mpr (show 0 + 32 ≤ kSmallBuffer by decide)

theorem insertInt_faithful_iff_hundred :
    (init (CharArray.zeros kSmallBuffer)).LogsNumeral 100 ∧
      ¬(∃ t u, (init (CharArray.zeros kSmallBuffer)).insertInt 100 = .ok t ∧
        (init (CharArray.zeros kSmallBuffer)).insertInt (-100) = .ok u ∧
          t.buffer_.toString ≠ u.buffer_.toString) :=
  ⟨(insertInt_faithful_iff (avail_init _) 100 (-100)).1.mpr (by decide),
    mt (insertInt_faithful_iff (avail_init _) 100 (-100)).2.mp (by decide)⟩

/-- `-5` is logged as `5`. -/
theorem not_logsNumeral_minusFive :
    ¬(init (CharArray.zeros kSmallBuffer)).LogsNumeral (-5) := by
  rw [logsNumeral_iff (avail_init _)]
  decide

end LogStream

end LearnUv.Log
