import LearnUv.Log.LoggerSpec

/-!
# One record for each log statement

A record ends with the name of the source file, the line and a newline.  These are pieces
like all others, left out one by one when they do not fit, so a statement gives a complete
record exactly when what is in front leaves room for them.

The condition counts what is in front as it is in the stream after the values of the
statement were inserted, with those that were left out left out: a statement whose values
do not fit may still give a complete record, without them.  The text of the time in front
is the one `formatTime` gives, under the assumption about its overlapping `sprintf` that
`sprintfBehind` states.

## Main Definitions

* `CompleteRecord` — the text ends as a record does, with its only newline
* `LeavesRoom` — what is in front leaves room for that

## Main Results

* `completeRecord_iff` — a log statement gives a complete record exactly when the line number
  is not negative and there is room
-/

namespace LearnUv.Log

/-- What a record ends with. -/
def trailer (base : List UInt8) (line : Int32) : List UInt8 :=
  literal " - " ++ base ++ literal ":" ++ Decimal.numeral line.toInt ++ literal "\n"

/-- The text is a record, and not the beginning of one or more than one. -/
def CompleteRecord (base : List UInt8) (line : Int32) (text : List UInt8) : Prop :=
  trailer base line <:+ text ∧ text.count newline = 1

/-- Behind `text` there is room for the end of a record, with the longest line number.  Or
there is room for all but the name, and what is in front of it happens to end in the name. -/
def LeavesRoom (base text : List UInt8) : Prop :=
  text.length + base.length + 36 ≤ kSmallBuffer ∨
    text.length + 36 ≤ kSmallBuffer ∧ kSmallBuffer ≤ text.length + 3 + base.length ∧
      literal " - " ++ base <:+ text ++ literal " - "

/-! ## Ends of texts -/

theorem suffix_append_right_iff {α : Type} {front back tail : List α} :
    front ++ tail <:+ back ++ tail ↔ front <:+ back := by
  constructor
  · rintro ⟨more, h⟩
    rw [← List.append_assoc] at h
    exact ⟨more, List.append_cancel_right h⟩
  · rintro ⟨more, rfl⟩
    exact ⟨more, List.append_assoc _ _ _ |>.symm⟩

/-- What ends in something ends in its last element. -/
theorem suffix_concat_concat {α : Type} {front back : List α} {a b : α}
    (h : front ++ [a] <:+ back ++ [b]) : a = b ∧ front <:+ back := by
  obtain ⟨more, h⟩ := h
  rw [← List.append_assoc] at h
  obtain ⟨hfront, hlast⟩ := List.append_inj' h rfl
  exact ⟨List.head_eq_of_cons_eq hlast, more, hfront⟩

/-- With the number in it, a text ends as a record does if the number is not negative and
the name is in front of it. -/
theorem trailer_suffix_iff {base text : List UInt8} {line : Int32} :
    trailer base line <:+ text ++ literal ":" ++ convertText line ++ literal "\n" ↔
      0 ≤ line ∧ literal " - " ++ base <:+ text := by
  rw [trailer, suffix_append_right_iff, Int32.le_iff_toInt_le, Int32.toInt_zero]
  constructor
  · intro h
    by_cases hneg : line.toInt < 0
    · -- in front of the digits there is a colon and not the sign
      rw [Decimal.numeral, if_pos hneg, ← List.singleton_append, ← List.append_assoc,
        convertText, suffix_append_right_iff] at h
      exact absurd (suffix_concat_concat (a := Decimal.minus) (b := 58) h).1 (by decide)
    · rw [Decimal.numeral, if_neg hneg, convertText, suffix_append_right_iff,
        suffix_append_right_iff] at h
      exact ⟨by omega, h⟩
  · rintro ⟨hpos, h⟩
    rw [convertText, (Decimal.natNumeral_eq_numeral_iff _).mpr hpos, suffix_append_right_iff,
      suffix_append_right_iff]
    exact h

/-- Without the number it does not. -/
theorem not_trailer_suffix {base text : List UInt8} {line : Int32} :
    ¬trailer base line <:+ text ++ literal ":" ++ literal "\n" := by
  intro h
  rw [trailer, suffix_append_right_iff] at h
  obtain ⟨digits, last, hdigits⟩ :=
    (List.eq_nil_or_concat' (Decimal.numeral line.toInt)).resolve_left (Decimal.numeral_ne_nil _)
  have hmem : last ∈ Decimal.numeral line.toInt := by
    rw [hdigits]
    exact List.mem_concat_self
  rw [hdigits, ← List.append_assoc] at h
  -- the last digit would be a colon
  rw [(suffix_concat_concat (b := 58) h).1] at hmem
  exact absurd (Decimal.isNumeralChar_of_mem_numeral hmem) (by decide)

/-! ## The end of a record -/

theorem newline_notMem_put {text piece : List UInt8} (htext : newline ∉ text)
    (hpiece : newline ∉ piece) : newline ∉ put text piece := by
  rw [put]
  split
  · rw [List.mem_append, not_or]
    exact ⟨htext, hpiece⟩
  · exact htext

theorem newline_notMem_putNumber {text numeral : List UInt8} (htext : newline ∉ text)
    (hnumeral : newline ∉ numeral) : newline ∉ putNumber text numeral := by
  rw [putNumber]
  split
  · rw [List.mem_append, not_or]
    exact ⟨htext, hnumeral⟩
  · exact htext

theorem newline_notMem_convertText (line : Int32) : newline ∉ convertText line :=
  (isPlain_of_isNumeralChar fun _ => Decimal.isNumeralChar_of_mem_natNumeral).2

/-- The newline is the only one where nothing in front of it has one. -/
theorem count_newline {text : List UInt8} (h : newline ∉ text) :
    (text ++ literal "\n").count newline = 1 := by
  rw [List.count_append, List.count_eq_zero.mpr h]
  rfl

/-- A text without a newline is not a record. -/
theorem not_completeRecord_of_notMem {base text : List UInt8} {line : Int32}
    (h : newline ∉ text) : ¬CompleteRecord base line text := by
  rintro ⟨-, hcount⟩
  rw [List.count_eq_zero.mpr h] at hcount
  cases hcount

/-- **The number decides**: with room for it the record is complete if the name is in front,
and without it is not. -/
theorem completeRecord_iff_of_name {base text : List UInt8} {line : Int32}
    (htext : newline ∉ text) :
    CompleteRecord base line
        (put (putNumber (put text (literal ":")) (convertText line)) (literal "\n")) ↔
      0 ≤ line ∧ text.length + 33 ≤ kSmallBuffer ∧ literal " - " ++ base <:+ text := by
  have hsize : kSmallBuffer = 4096 := rfl
  have hcolon : (literal ":").length = 1 := rfl
  have hend : (literal "\n").length = 1 := rfl
  have hdigits := length_convertText_le line
  have htext' : newline ∉ put text (literal ":") := newline_notMem_put htext (by decide)
  by_cases hroom : text.length + 33 ≤ kSmallBuffer
  · have hnumber : putNumber (text ++ literal ":") (convertText line) =
        text ++ literal ":" ++ convertText line :=
      if_pos (by rw [List.length_append, hcolon]; omega)
    have hplain : newline ∉ text ++ literal ":" ++ convertText line := by
      rw [← hnumber]
      refine newline_notMem_putNumber ?_ (newline_notMem_convertText line)
      rw [put_of_lt (by omega)] at htext'
      exact htext'
    have hfits : (text ++ literal ":" ++ convertText line).length + (literal "\n").length <
        kSmallBuffer := by
      rw [List.length_append, List.length_append, hcolon, hend]
      omega
    rw [@put_of_lt text (literal ":") (by omega), hnumber, put_of_lt hfits, CompleteRecord,
      trailer_suffix_iff, and_iff_left (count_newline hplain)]
    exact and_congr_right fun _ => (and_iff_right hroom).symm
  · refine iff_of_false ?_ fun h => hroom h.2.1
    have hlength : text.length ≤ (put text (literal ":")).length ∧
        (text.length + 1 < kSmallBuffer → (put text (literal ":")).length = text.length + 1) := by
      rw [put]
      split
      · rw [List.length_append, hcolon]
        omega
      · omega
    have hnumber : putNumber (put text (literal ":")) (convertText line) =
        put text (literal ":") := if_neg (by omega)
    rw [hnumber]
    by_cases hlast : text.length + 2 < kSmallBuffer
    · rw [@put_of_lt text (literal ":") (by omega), put_of_lt (by
        rw [List.length_append, hcolon, hend]
        exact hlast)]
      exact fun h => not_trailer_suffix h.1
    · -- not even the newline fits
      rw [put_of_le (by omega)]
      exact not_completeRecord_of_notMem htext'

/-- **Where the name is in front of a number that fits** is where there is room. -/
theorem leavesRoom_iff {base text : List UInt8} :
    ((put (put text (literal " - ")) base).length + 33 ≤ kSmallBuffer ∧
        literal " - " ++ base <:+ put (put text (literal " - ")) base) ↔
      LeavesRoom base text := by
  have hsize : kSmallBuffer = 4096 := rfl
  have hdash : (literal " - ").length = 3 := rfl
  rw [LeavesRoom]
  by_cases hfirst : text.length + 3 < kSmallBuffer
  · have htext : (text ++ literal " - ").length = text.length + 3 := by
      rw [List.length_append, hdash]
    rw [@put_of_lt text (literal " - ") (by omega)]
    by_cases hname : text.length + 3 + base.length < kSmallBuffer
    · have hend : literal " - " ++ base <:+ text ++ literal " - " ++ base :=
        suffix_append_right_iff.mpr (List.suffix_append _ _)
      rw [put_of_lt (by omega), and_iff_left hend, List.length_append, htext]
      omega
    · -- the name is left out, so that the text ends in it only if it did before
      rw [put_of_le (by omega), htext]
      constructor
      · rintro ⟨hroom, hend⟩
        exact Or.inr ⟨by omega, by omega, hend⟩
      · rintro (hroom | ⟨hroom, -, hend⟩)
        · omega
        · exact ⟨by omega, hend⟩
  · rw [@put_of_le text (literal " - ") (by omega)]
    have hlength : text.length ≤ (put text base).length := by
      rw [put]
      split
      · rw [List.length_append]
        exact Nat.le_add_right _ _
      · exact le_rfl
    refine iff_of_false ?_ ?_
    · rintro ⟨hroom, -⟩
      omega
    · rintro (hroom | ⟨hroom, -⟩)
      · omega
      · omega

/-! ## Log statements -/

section Statements

variable {Double : Type} {printed : Double → List UInt8}

theorem newline_notMem_foldl {pieces : List (Piece Double)}
    (hplain : ∀ piece ∈ pieces, newline ∉ piece.text printed) {text : List UInt8}
    (htext : newline ∉ text) : newline ∉ pieces.foldl (Piece.put printed) text := by
  induction pieces generalizing text with
  | nil => exact htext
  | cons piece pieces ih =>
      have hpiece := hplain piece List.mem_cons_self
      refine ih (fun p hp => hplain p (List.mem_cons_of_mem _ hp)) ?_
      cases piece with
      | int v => exact newline_notMem_putNumber htext hpiece
      | double v => exact newline_notMem_putNumber htext hpiece
      | cstr str => exact newline_notMem_put htext hpiece
      | string str => exact newline_notMem_put htext hpiece
      | append data len => exact newline_notMem_put htext hpiece

/-- What `finish` makes of a text without a newline. -/
theorem completeRecord_finished_iff {base text : List UInt8} {line : Int32}
    (htext : newline ∉ text) (hbase : newline ∉ base) :
    CompleteRecord base line (Logger.finished base line text) ↔ 0 ≤ line ∧ LeavesRoom base text := by
  have hname : newline ∉ put (put text (literal " - ")) base :=
    newline_notMem_put (newline_notMem_put htext (by decide)) hbase
  rw [Logger.finished, completeRecord_iff_of_name hname, leavesRoom_iff]

/-- **A log statement gives one complete record** exactly when its line number is not
negative and what it has put into the buffer leaves room for the end of the record. -/
theorem completeRecord_iff (hprinted : ∀ v, (printed v).length < 32) (around : Surroundings)
    {path : List UInt8} (hnul : 0 ∉ path) (hlen : path.length + 1 < 2 ^ 31)
    (hbase : newline ∉ baseName path) (line : Int32) (level : LogLevel)
    {pieces : List (Piece Double)} (hwell : ∀ piece ∈ pieces, piece.WellFormed)
    (hplain : ∀ piece ∈ pieces, newline ∉ piece.text printed) :
    (∃ text, logStatement printed around path line level pieces = .ok text ∧
        CompleteRecord (baseName path) line text) ↔
      0 ≤ line ∧ LeavesRoom (baseName path)
        (pieces.foldl (Piece.put printed) (Logger.header around level)) := by
  have htext := newline_notMem_foldl hplain (Logger.isPlain_header around level).2
  rw [logStatement_spec hprinted around hnul hlen line level hwell,
    ← completeRecord_finished_iff htext hbase]
  constructor
  · rintro ⟨text, htext, hrecord⟩
    obtain rfl := Except.ok.inj htext
    exact hrecord
  · intro hrecord
    exact ⟨_, rfl, hrecord⟩

end Statements

/-- The start of the epoch, on a host that is where it was. -/
def atEpoch : Surroundings where
  now := ⟨0⟩
  localtime := fun _ => ⟨0, 0, 0, 1, 0, 70⟩
  formatted := CharArray.zeros 34
  data_ := CharArray.zeros kSmallBuffer

/-- `LOG_INFO << "Hello world " << 100`. -/
theorem completeRecord_iff_hello :
    ∃ text, logStatement (fun _ : Unit => []) atEpoch (literal "log/tests/LogStream_test.cpp")
        25 .info [.cstr (some (.ofLiteral "Hello world " (by decide))), .int 100] = .ok text ∧
      CompleteRecord (baseName (literal "log/tests/LogStream_test.cpp")) 25 text :=
  (completeRecord_iff (fun _ => by decide) atEpoch (by decide) (by decide) (by decide) 25 .info
    (by
      intro piece hmem
      rcases List.mem_cons.mp hmem with rfl | hmem
      · trivial
      · obtain rfl := List.mem_singleton.mp hmem
        trivial)
    (by
      intro piece hmem
      rcases List.mem_cons.mp hmem with rfl | hmem
      · decide
      · obtain rfl := List.mem_singleton.mp hmem
        exact newline_notMem_convertText 100)).mpr ⟨by decide, Or.inl (by decide +kernel)⟩

/-- A line that fills the buffer, but for one byte. -/
def longLine : StdString where
  bytes := List.replicate 4062 97
  length_lt := by
    rw [List.length_replicate]
    decide

theorem newline_notMem_longLine :
    newline ∉ Piece.text (fun _ : Unit => []) (.string longLine) := by
  intro hnewline
  have hmem : newline ∈ longLine.bytes := by
    rw [Piece.text, cString] at hnewline
    exact (List.takeWhile_prefix _).subset hnewline
  exact absurd (List.eq_of_mem_replicate hmem) (by decide)

theorem length_put_longLine :
    (Piece.put (fun _ : Unit => []) (Logger.header atEpoch .info) (.string longLine)).length =
      4095 := by decide +kernel

/-- Behind it there is not even a newline, and the next record begins on the same line. -/
theorem not_completeRecord_longLine :
    ¬∃ text, logStatement (fun _ : Unit => []) atEpoch (literal "a.cpp") 24 .info
        [.string longLine] = .ok text ∧ CompleteRecord (baseName (literal "a.cpp")) 24 text := by
  have hlength := length_put_longLine
  have hplain : newline ∉
      Piece.put (fun _ : Unit => []) (Logger.header atEpoch .info) (.string longLine) :=
    newline_notMem_put (Logger.isPlain_header atEpoch .info).2 newline_notMem_longLine
  rintro ⟨text, htext, hrecord⟩
  rw [logStatement_spec (fun _ => by decide) atEpoch (by decide) (by decide) 24 .info (by
    intro piece hmem
    rw [List.mem_singleton.mp hmem]
    trivial), Except.ok.injEq, List.foldl_cons, List.foldl_nil] at htext
  subst htext
  obtain ⟨-, hroom | ⟨hroom, -⟩⟩ := (completeRecord_finished_iff hplain (by decide)).mp hrecord
  · rw [hlength] at hroom
    exact absurd hroom (by decide)
  · rw [hlength] at hroom
    exact absurd hroom (by decide)

end LearnUv.Log
