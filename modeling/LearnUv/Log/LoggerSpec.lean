import LearnUv.Log.Logging
import LearnUv.Log.LogStreamSpec

/-!
# What a log statement passes on

Everything in a log line is inserted piece by piece: the time and the level, the values of
the statement, and what `finish` puts behind them.  Whether a piece is kept depends only on
the length of what is there, so the text of a statement is a function of its pieces.

The functions `put` and `putNumber` are that function: they act on a byte string, with no
array and no pointer.  Each member of `Logger` is shown to do on its stream what they do on
the text in it, and `logStatement_spec` puts the members together in the order in which a
statement calls them.  The time is formatted in an array of its own, in which the date is the
argument as well as the beginning of the result; `Surroundings.timeText` is what the array
then holds, under the assumption that `sprintfBehind` states.

## Main Definitions

* `put`, `putNumber`, `Piece.put` — what a line holds after a piece
* `Surroundings.timeText`, `Logger.header`, `Logger.finished` — what the members of `Logger`
  put into it

## Main Results

* `run_insert_content` — what a sequence of insertions leaves
* `Logger.formatTime_spec`, `Logger.new_spec`, `Logger.finish_spec` — the members
* `logStatement_spec` — the text of a log statement
-/

namespace LearnUv.Log

/-- `'\n'`. -/
def newline : UInt8 := 10

/-! ## What a line holds -/

/-- A text and a piece behind it, if that fits. -/
def put (text piece : List UInt8) : List UInt8 :=
  if text.length + piece.length < kSmallBuffer then text ++ piece else text

/-- The same for a number. -/
def putNumber (text numeral : List UInt8) : List UInt8 :=
  if text.length + 32 ≤ kSmallBuffer then text ++ numeral else text

/-- A piece that fits is put behind the text. -/
theorem put_of_lt {text piece : List UInt8} (h : text.length + piece.length < kSmallBuffer) :
    put text piece = text ++ piece := if_pos h

/-- A piece that does not is left out. -/
theorem put_of_le {text piece : List UInt8} (h : kSmallBuffer ≤ text.length + piece.length) :
    put text piece = text := if_neg (Nat.not_lt.mpr h)

/-- The same, decided by another condition that says whether it fits. -/
theorem put_eq_ite {p : Prop} [Decidable p] {text piece : List UInt8}
    (h : p ↔ text.length + piece.length < kSmallBuffer) :
    put text piece = text ++ if p then piece else [] := by
  by_cases hp : p
  · rw [if_pos hp, put_of_lt (h.mp hp)]
  · rw [if_neg hp, put_of_le (Nat.not_lt.mp (mt h.mpr hp)), List.append_nil]

/-- Likewise for a number, which needs room for the longest one. -/
theorem putNumber_eq_ite {p : Prop} [Decidable p] {text numeral : List UInt8}
    (h : p ↔ text.length + 32 ≤ kSmallBuffer) :
    putNumber text numeral = text ++ if p then numeral else [] := by
  by_cases hp : p
  · rw [if_pos hp, putNumber, if_pos (h.mp hp)]
  · rw [if_neg hp, putNumber, if_neg (mt h.mpr hp), List.append_nil]

/-- What the stream holds. -/
def LogStream.content (s : LogStream) : List UInt8 := s.buffer_.data_.bytes.take s.buffer_.cur_

/-- The stream holds as many bytes as the pointer is behind the array. -/
theorem LogStream.length_content (s : LogStream) : s.content.length = s.buffer_.cur_ := by
  have hcur := s.buffer_.cur_le
  rw [content, List.length_take, s.buffer_.data_.length_eq, Nat.min_eq_left hcur]

section Pieces

variable {Double : Type} (printed : Double → List UInt8)

/-- What a line holds after a piece is inserted. -/
def Piece.put (text : List UInt8) : Piece Double → List UInt8
  | .int v => putNumber text (convertText v)
  | .double v => putNumber text (printed v)
  | piece => Log.put text (piece.text printed)

variable {printed}

/-- What a line holds after a piece is what the insertion is specified to leave. -/
theorem Piece.put_eq (s : LogStream) (piece : Piece Double) :
    Piece.put printed s.content piece =
      s.content ++ if piece.Admitted printed s then piece.text printed else [] := by
  have havail := s.buffer_.toInt_avail kSmallBuffer_lt
  have hcur := s.buffer_.cur_le
  have hfits : ∀ text : List UInt8, (text.length : ℤ) < s.buffer_.avail.toInt ↔
      s.content.length + text.length < kSmallBuffer := by
    intro text
    rw [havail, s.length_content]
    omega
  have hnumber : s.buffer_.avail ≥ kMaxNumericSize ↔
      s.content.length + 32 ≤ kSmallBuffer := by
    rw [s.length_content]
    exact kMaxNumericSize_le_avail_iff s.buffer_
  cases piece with
  | int v => exact putNumber_eq_ite hnumber
  | double v => exact putNumber_eq_ite hnumber
  | cstr str => exact put_eq_ite (hfits _)
  | string str => exact put_eq_ite (hfits _)
  | append data len => exact put_eq_ite (hfits _)

/-- **An insertion** leaves in the stream what its lengths say. -/
theorem insert_content (hprinted : ∀ v, (printed v).length < 32) (s : LogStream)
    {piece : Piece Double} (hwell : piece.WellFormed) :
    ∃ t, s.insert printed piece = .ok t ∧ t.content = piece.put printed s.content := by
  obtain ⟨t, hinsert, happended⟩ := insert_spec hprinted s hwell
  exact ⟨t, hinsert, happended.bytes.trans (piece.put_eq s).symm⟩

/-- So does a sequence of insertions. -/
theorem run_insert_content (hprinted : ∀ v, (printed v).length < 32) (s : LogStream)
    {pieces : List (Piece Double)} (hwell : ∀ piece ∈ pieces, piece.WellFormed) :
    ∃ t, AbortingRun.run (LogStream.insert printed) s pieces = .ok t ∧
      t.content = pieces.foldl (Piece.put printed) s.content := by
  induction pieces generalizing s with
  | nil => exact ⟨s, rfl, rfl⟩
  | cons piece pieces ih =>
      obtain ⟨t, hinsert, ht⟩ := insert_content hprinted s (hwell piece List.mem_cons_self)
      obtain ⟨u, hrun, hu⟩ := ih t fun p hp => hwell p (List.mem_cons_of_mem _ hp)
      refine ⟨u, ?_, ?_⟩
      · rw [AbortingRun.run_cons, hinsert]
        exact hrun
      · rw [hu, ht, List.foldl_cons]

end Pieces

/-- A C string is put behind what the stream holds. -/
theorem LogStream.insertCStr_content (s : LogStream) (str : CString) :
    ∃ t, s.insertCStr (some str) = .ok t ∧ t.content = put s.content (cString str.bytes) :=
  @insert_content Unit (fun _ => []) (fun _ => by decide) s (.cstr (some str)) trivial

/-- So is a range of an array. -/
theorem LogStream.append_content (s : LogStream) {data : List UInt8} {len : Int32}
    (hlen : 0 ≤ len) (hdata : len.toInt.toNat ≤ data.length) :
    ∃ t, s.append data len = .ok t ∧ t.content = put s.content (data.take len.toInt.toNat) :=
  @insert_content Unit (fun _ => []) (fun _ => by decide) s (.append data len) ⟨hlen, hdata⟩

/-- An `int` needs room for the longest number. -/
theorem LogStream.insertInt_content (s : LogStream) (v : Int32) :
    ∃ t, s.insertInt v = .ok t ∧ t.content = putNumber s.content (convertText v) :=
  @insert_content Unit (fun _ => []) (fun _ => by decide) s (.int v) trivial

/-! ## The time -/

/-- What is in front of the comma and what is behind it. -/
def Surroundings.timeText (around : Surroundings) : List UInt8 :=
  let us := around.now.microSecondsSinceEpoch_
  let text := (around.localtime (us / kMircoSecondsPerSecond.toInt64)).text
  (if text.length + 1 ≤ 20 then text else []) ++ literal "," ++
    Decimal.padded 6 (us % kMircoSecondsPerSecond.toInt64).toInt

/-- Neither a NUL nor a newline. -/
def IsPlain (text : List UInt8) : Prop := 0 ∉ text ∧ newline ∉ text

theorem isPlain_append {first second : List UInt8} :
    IsPlain (first ++ second) ↔ IsPlain first ∧ IsPlain second := by
  simp only [IsPlain, List.mem_append, not_or]
  tauto

/-- Digits and minus signs are plain. -/
theorem isPlain_of_isNumeralChar {text : List UInt8}
    (h : ∀ c ∈ text, Decimal.IsNumeralChar c) : IsPlain text := by
  constructor
  · intro hmem
    exact absurd (h 0 hmem) (by decide)
  · intro hmem
    exact absurd (h newline hmem) (by decide)

theorem isPlain_padded (width : ℕ) (v : ℤ) : IsPlain (Decimal.padded width v) :=
  isPlain_of_isNumeralChar fun _ => Decimal.isNumeralChar_of_mem_padded

theorem isPlain_numeral (v : ℤ) : IsPlain (Decimal.numeral v) :=
  isPlain_of_isNumeralChar fun _ => Decimal.isNumeralChar_of_mem_numeral

/-- So is a date, -/
theorem Tm.isPlain_text (info : Tm) : IsPlain info.text := by
  simp only [text, isPlain_append, isPlain_numeral, isPlain_padded, true_and, and_true]
  refine ⟨⟨⟨⟨?_, ?_⟩, ?_⟩, ?_⟩, ?_⟩ <;> exact ⟨by decide, by decide⟩

/-- and the time of a record. -/
theorem Surroundings.isPlain_timeText (around : Surroundings) : IsPlain around.timeText := by
  rw [timeText, isPlain_append, isPlain_append]
  refine ⟨⟨?_, by decide, by decide⟩, isPlain_padded _ _⟩
  split
  · exact Tm.isPlain_text _
  · exact ⟨List.not_mem_nil, List.not_mem_nil⟩

/-- What is left of the microseconds has at most six digits. -/
theorem natAbs_mod_lt (us : Int64) :
    (us % kMircoSecondsPerSecond.toInt64).toInt.natAbs < 10 ^ 6 := by
  rw [Int64.toInt_mod, Int.natAbs_tmod]
  exact Nat.mod_lt _ (by decide)

/-- The time fits the array that it is put together in. -/
theorem Surroundings.length_timeText_le (around : Surroundings) :
    around.timeText.length ≤ 27 := by
  have hrest := @Decimal.length_padded_le 6 6 _ (by decide)
    (natAbs_mod_lt around.now.microSecondsSinceEpoch_)
  have hcomma : (literal ",").length = 1 := rfl
  rw [timeText, List.length_append, List.length_append, hcomma]
  split
  · omega
  · rw [List.length_nil]
    omega

section Arrays

variable {n : ℕ}

/-- A string at the front of the memory is the C string there. -/
theorem overwrite_zero_cStr (bytes text : List UInt8) :
    overwrite bytes 0 (cStr text) = text ++ 0 :: bytes.drop (text.length + 1) := by
  rw [overwrite, cStr]
  simp

/-- A string is stored at the front of an array, with a NUL behind it. -/
theorem store_cStr (array : CharArray n) {text : List UInt8} (hfits : text.length + 1 ≤ n) :
    ∃ array' rest, array.store 0 (cStr text) = .ok array' ∧
      array'.bytes = text ++ 0 :: rest := by
  have hlength : 0 + (cStr text).length ≤ n := by
    rw [cStr, List.length_append, List.length_singleton]
    omega
  obtain ⟨array', hstore, hbytes⟩ := array.store_of_fits hlength
  refine ⟨array', array.bytes.drop (text.length + 1), hstore, ?_⟩
  rw [hbytes, overwrite_zero_cStr]

/-- A string of an array is what is in front of the first NUL. -/
theorem StdString.ofArray_spec (array : CharArray n) (hn : n < ptrdiffMax)
    {text rest : List UInt8} (htext : 0 ∉ text) (hbytes : array.bytes = text ++ 0 :: rest) :
    ∃ str, StdString.ofArray array hn = .ok str ∧ str.bytes = text := by
  have hmem : 0 ∈ array.bytes := by
    rw [hbytes]
    simp
  refine ⟨⟨cString array.bytes, length_cString_lt array hn⟩, if_pos hmem, ?_⟩
  show cString array.bytes = _
  rw [hbytes, cString_append_zero htext]

/-- **`strftime`**, with the NUL that is stored behind what it counts. -/
theorem strftime_spec (array : CharArray n) (info : Tm) {max : ℕ} (hmax : max ≤ n)
    (hpos : 0 < n) :
    ∃ array' l array'' rest, strftime array max info = .ok (array', l) ∧
      array'.store l [0] = .ok array'' ∧
        array''.bytes = (if info.text.length + 1 ≤ max then info.text else []) ++ 0 :: rest := by
  by_cases hfits : info.text.length + 1 ≤ max
  · obtain ⟨array', rest, hstore, hbytes⟩ := 
      store_cStr array (show info.text.length + 1 ≤ n by omega)
    have hroom : info.text.length + [(0 : UInt8)].length ≤ n := by
      rw [List.length_singleton]
      omega
    obtain ⟨array'', hstore', hbytes'⟩ := array'.store_of_fits hroom
    refine ⟨array', _, array'', rest, ?_, hstore', ?_⟩
    · rw [strftime, if_pos hfits, hstore]
      rfl
    · rw [hbytes', hbytes, if_pos hfits]
      exact @overwrite_middle info.text [0] [0] rest rfl
  · obtain ⟨array'', rest, hstore, hbytes⟩ := @store_cStr n array [] hpos
    refine ⟨array, 0, array'', rest, ?_, hstore, ?_⟩
    · rw [strftime, if_neg hfits]
      rfl
    · rw [hbytes, if_neg hfits]

end Arrays

namespace Logger

/-- **The time** is put together in the array, and fits. -/
theorem formatTime_spec (around : Surroundings) :
    ∃ time, formatTime around around.now = .ok time ∧ time.bytes = around.timeText := by
  have hplain := around.isPlain_timeText
  have hlength := around.length_timeText_le
  obtain ⟨array, l, array', rest, hstrftime, hnul, hbytes⟩ :=
    strftime_spec around.formatted (around.localtime
      (around.now.microSecondsSinceEpoch_ / kMircoSecondsPerSecond.toInt64))
      (show 20 ≤ 34 by decide) (by decide)
  have hfront : cString array'.bytes ++ literal "," ++ Decimal.padded 6
      (around.now.microSecondsSinceEpoch_ % kMircoSecondsPerSecond.toInt64).toInt =
        around.timeText := by
    rw [hbytes, cString_append_zero, Surroundings.timeText]
    split
    · exact (Tm.isPlain_text _).1
    · exact List.not_mem_nil
  obtain ⟨array'', rest', hprint, hbytes'⟩ :=
    store_cStr array' (show around.timeText.length + 1 ≤ 34 by omega)
  obtain ⟨time, htime, hstring⟩ :=
    StdString.ofArray_spec array'' (by decide) hplain.1 hbytes'
  refine ⟨time, ?_, hstring⟩
  simp only [formatTime, sprintfBehind, hstrftime, hnul, hfront, hprint, AbortingRun.ok_bind]
  exact htime

/-- What the constructor puts in front. -/
def header (around : Surroundings) (level : LogLevel) : List UInt8 :=
  around.timeText ++ literal " " ++ cString (logLevelName level).bytes

/-- What is in front of a message holds no newline. -/
theorem isPlain_header (around : Surroundings) (level : LogLevel) :
    IsPlain (header around level) := by
  rw [header, isPlain_append, isPlain_append]
  refine ⟨⟨around.isPlain_timeText, by decide, by decide⟩, ?_⟩
  cases level with
  | _ => exact ⟨by decide, by decide⟩

/-- A new stream holds nothing. -/
theorem content_init (memory : CharArray kSmallBuffer) :
    (LogStream.init memory).content = [] := List.take_zero

/-- **The constructor** puts the time and the level into the empty stream. -/
theorem new_spec (around : Surroundings) (file : SourceFile) (line : Int32)
    (level : LogLevel) :
    ∃ stream_, new around file line level = .ok ⟨stream_, level, line, file, around.now⟩ ∧
      stream_.content = header around level := by
  have htime := around.length_timeText_le
  have hplain := around.isPlain_timeText
  have hlevel := length_logLevelName level
  obtain ⟨time, hformat, hbytes⟩ := formatTime_spec around
  obtain ⟨s₁, h₁, hs₁⟩ := (LogStream.init around.data_).insertCStr_content time.c_str
  obtain ⟨s₂, h₂, hs₂⟩ := s₁.insertCStr_content (.ofLiteral " " (by decide))
  have hname : (6 : UInt32).toInt32.toInt.toNat ≤ (logLevelName level).bytes.length := by
    have hle := length_cString_le (logLevelName level).bytes
    rw [hlevel] at hle
    exact hle
  obtain ⟨s₃, h₃, hs₃⟩ := s₂.append_content (show 0 ≤ (6 : UInt32).toInt32 by decide) hname
  refine ⟨s₃, ?_, ?_⟩
  · simp only [new, hformat, LogStream.insertString, LogStream.insertT, levelT, h₁, h₂, h₃,
      AbortingRun.ok_bind, AbortingRun.pure_eq_ok]
  · have hstr : cString time.c_str.bytes = around.timeText := by
      rw [show time.c_str.bytes = cStr time.bytes from rfl, cString_cStr, hbytes,
        cString_of_notMem hplain.1]
    have hblank : cString (CString.ofLiteral " " (by decide)).bytes = literal " " := rfl
    have htake : (logLevelName level).bytes.take (6 : UInt32).toInt32.toInt.toNat =
        cString (logLevelName level).bytes := by
      have h := take_length_cString (logLevelName level).bytes
      rw [hlevel] at h
      exact h
    have hone : (literal " ").length = 1 := rfl
    have hsize : kSmallBuffer = 4096 := rfl
    have hfirst : put [] around.timeText = around.timeText := by
      rw [put_of_lt (by rw [List.length_nil]; omega), List.nil_append]
    have hsecond : put around.timeText (literal " ") = around.timeText ++ literal " " :=
      put_of_lt (by omega)
    rw [hs₃, hs₂, hs₁, content_init, hstr, hblank, htake, hfirst, hsecond,
      put_of_lt (by rw [List.length_append, hone, hlevel]; omega), header]

/-! ## The end of a record -/

/-- What `finish` leaves of a record that holds `text`. -/
def finished (base : List UInt8) (line : Int32) (text : List UInt8) : List UInt8 :=
  put (putNumber (put (put (put text (literal " - ")) base) (literal ":")) (convertText line))
    (literal "\n")

/-- **`finish`** puts one piece after the other behind the text. -/
theorem finish_spec (logger : Logger) {base : List UInt8}
    (hdata : logger.basename_.data_ = cStr base)
    (hsize : logger.basename_.size_.toInt = base.length) :
    ∃ stream_, logger.finish = .ok { logger with stream_ } ∧
      stream_.content = finished base logger.line_ logger.stream_.content := by
  have hlen : logger.basename_.size_.toInt.toNat = base.length := by
    rw [hsize, Int.toNat_natCast]
  have hinside : logger.basename_.size_.toInt.toNat ≤ logger.basename_.data_.length := by
    rw [hlen, hdata, cStr, List.length_append]
    exact Nat.le_add_right _ _
  have hpos : 0 ≤ logger.basename_.size_ := by
    rw [Int32.le_iff_toInt_le, hsize]
    exact Int.natCast_nonneg _
  have htake : logger.basename_.data_.take logger.basename_.size_.toInt.toNat = base := by
    rw [hlen, hdata, cStr, List.take_left]
  obtain ⟨s₁, h₁, hs₁⟩ := logger.stream_.insertCStr_content (.ofLiteral " - " (by decide))
  obtain ⟨s₂, h₂, hs₂⟩ := s₁.append_content hpos hinside
  obtain ⟨s₃, h₃, hs₃⟩ := s₂.insertCStr_content (.ofLiteral ":" (by decide))
  obtain ⟨s₄, h₄, hs₄⟩ := s₃.insertInt_content logger.line_
  obtain ⟨s₅, h₅, hs₅⟩ := s₄.insertCStr_content (.ofLiteral "\n" (by decide))
  refine ⟨s₅, ?_, ?_⟩
  · simp only [finish, LogStream.insertSourceFile, h₁, h₂, h₃, h₄, h₅, AbortingRun.ok_bind,
      AbortingRun.pure_eq_ok]
  · rw [hs₅, hs₄, hs₃, hs₂, hs₁, htake]
    rfl

/-- **The destructor** hands over what is in the stream then. -/
theorem destroy_spec (logger : Logger) {base : List UInt8}
    (hdata : logger.basename_.data_ = cStr base)
    (hsize : logger.basename_.size_.toInt = base.length) :
    logger.destroy = .ok (finished base logger.line_ logger.stream_.content) := by
  obtain ⟨stream_, hfinish, hcontent⟩ := logger.finish_spec hdata hsize
  have hcur := stream_.buffer_.cur_le
  have hlength := stream_.buffer_.toInt_length kSmallBuffer_lt
  have hsize : (sizeOfInt stream_.buffer_.length).toNat = stream_.buffer_.cur_ := by
    rw [toNat_sizeOfInt (by omega), hlength, Int.toNat_natCast]
  rw [destroy, hfinish, AbortingRun.ok_bind, ← hcontent]
  refine readBytes_eq_ok.mpr ⟨?_, ?_⟩
  · rw [hsize, stream_.buffer_.data_.length_eq]
    exact hcur
  · rw [hsize, LogStream.content]

end Logger

/-- **The text of a log statement**: what the constructor put in front and the pieces that
fit, with what `finish` leaves behind it. -/
theorem logStatement_spec {Double : Type} {printed : Double → List UInt8}
    (hprinted : ∀ v, (printed v).length < 32) (around : Surroundings) {path : List UInt8}
    (hnul : 0 ∉ path) (hlen : path.length + 1 < 2 ^ 31) (line : Int32) (level : LogLevel)
    {pieces : List (Piece Double)} (hwell : ∀ piece ∈ pieces, piece.WellFormed) :
    logStatement printed around path line level pieces =
      .ok (Logger.finished (baseName path) line
        (pieces.foldl (Piece.put printed) (Logger.header around level))) := by
  obtain ⟨file, hfile, hdata, hsize⟩ := SourceFile.ofArray_spec hnul hlen
  obtain ⟨s, hnew, hs⟩ := Logger.new_spec around file line level
  obtain ⟨t, hrun, ht⟩ := run_insert_content hprinted s hwell
  have hdestroy := Logger.destroy_spec ⟨t, level, line, file, around.now⟩ hdata hsize
  rw [← hs, ← ht, ← hdestroy]
  simp only [logStatement, hfile, hnew, hrun, AbortingRun.ok_bind]

end LearnUv.Log
