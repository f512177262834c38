import LearnUv.Log.SourceFile

/-!
# `Logger`

A log statement makes a `Logger`, inserts values into its stream and destroys it.  The
constructor puts the time and the level in front, and the destructor puts the source file and
the line behind and hands the whole text to `g_output`.  The members are below in the order
of `Logging.cpp`.

What `localtime` makes of a time is a parameter, and so is the memory of what is not
initialised.

The time is put together by an `sprintf` that is given the array it writes to as an argument
too.  The language leaves undefined what that does, and everything that is said about the
text of a log statement rests on one assumption about it, which is the definition
`sprintfBehind`: the call reads its argument before it writes.

## Main Definitions

* `sprintfBehind` — the assumption about the `sprintf` onto its own argument
* `Logger.formatTime`, `Logger.new`, `Logger.finish`, `Logger.destroy` — the members
* `logStatement` — a whole statement: the text that `g_output` is called with
-/

namespace LearnUv.Log

/-- The C string of a literal. -/
def CString.ofLiteral (text : String) (h : (literal text).length < ptrdiffMax) : CString :=
  StdString.c_str ⟨literal text, h⟩

/-! ## Levels -/

/-- `enum LogLevel`, without `NUM_LOG_LEVELS`, which counts the others. -/
inductive LogLevel
  | trace
  | debug
  | info
  | warn
  | error
  | fatal
  deriving DecidableEq, Repr

/-- `LogLevelName[level]`. -/
def logLevelName : LogLevel → CString
  | .trace => .ofLiteral "TRACE " (by decide)
  | .debug => .ofLiteral "DEBUG " (by decide)
  | .info => .ofLiteral "INFO  " (by decide)
  | .warn => .ofLiteral "WARN  " (by decide)
  | .error => .ofLiteral "ERROR " (by decide)
  | .fatal => .ofLiteral "FATAL " (by decide)

/-- `class T`. -/
structure T where
  str_ : CString
  len_ : UInt32
  /-- What the constructor asserts. -/
  strlen_eq : (cString str_.bytes).length = len_.toNat

theorem length_logLevelName (level : LogLevel) :
    (cString (logLevelName level).bytes).length = 6 := by
  cases level with
  | _ => rfl

/-- `T(LogLevelName[level], 6)`. -/
def levelT (level : LogLevel) : T := ⟨logLevelName level, 6, length_logLevelName level⟩

/-- `operator<<(LogStream &, T)`. -/
def LogStream.insertT (s : LogStream) (v : T) : Exec LogStream :=
  s.append v.str_.bytes v.len_.toInt32

/-- `operator<<(LogStream &, const Logger::SourceFile &)`. -/
def LogStream.insertSourceFile (s : LogStream) (v : SourceFile) : Exec LogStream :=
  s.append v.data_ v.size_

/-! ## The time -/

/-- `class Timestamp`. -/
structure Timestamp where
  microSecondsSinceEpoch_ : Int64
  deriving DecidableEq

/-- `Timestamp::kMircoSecondsPerSecond`. -/
def kMircoSecondsPerSecond : Int32 := 1000 * 1000

/-- `struct tm`. -/
structure Tm where
  tm_sec : Fin 61
  tm_min : Fin 60
  tm_hour : Fin 24
  /-- The days count from one. -/
  tm_mday : Fin 32
  tm_mon : Fin 12
  /-- The years count from 1900. -/
  tm_year : Int32
  deriving DecidableEq

/-- What the format `"%Y-%m-%d %H:%M:%S"` gives. -/
def Tm.text (info : Tm) : List UInt8 :=
  Decimal.numeral (info.tm_year.toInt + 1900) ++ literal "-" ++
    Decimal.padded 2 (info.tm_mon + 1) ++ literal "-" ++ Decimal.padded 2 info.tm_mday ++
      literal " " ++ Decimal.padded 2 info.tm_hour ++ literal ":" ++
        Decimal.padded 2 info.tm_min ++ literal ":" ++ Decimal.padded 2 info.tm_sec

section Format

variable {n : ℕ}

/-- `strftime(array, max, .., info)`: nothing is counted when the text and its NUL do not
fit. -/
def strftime (array : CharArray n) (max : ℕ) (info : Tm) : Exec (CharArray n × ℕ) :=
  if info.text.length + 1 ≤ max then do
    let array ← array.store 0 (cStr info.text)
    return (array, info.text.length)
  else return (array, 0)

theorem length_cString_lt (array : CharArray n) (h : n < ptrdiffMax) :
    (cString array.bytes).length < ptrdiffMax := by
  have hle := length_cString_le array.bytes
  rw [array.length_eq] at hle
  omega

/-- `sprintf(array, "%s,%06lld", array, rest)`, where the array that is written is also an
argument.  **Assumption**: the text is what the format gives for the array as it was before
the call, as it is with a library that copies a string onto itself.  A library that stores a
NUL first, as checked variants of `sprintf` do, loses what is in front of the comma. -/
def sprintfBehind (array : CharArray n) (rest : Int64) : Exec (CharArray n) :=
  array.store 0 (cStr (cString array.bytes ++ literal "," ++ Decimal.padded 6 rest.toInt))

/-- `std::string(array)`. -/
def StdString.ofArray (array : CharArray n) (h : n < ptrdiffMax) : Exec StdString :=
  if 0 ∈ array.bytes then .ok ⟨cString array.bytes, length_cString_lt array h⟩
  else .error .outOfBounds

end Format

/-! ## `Logger` -/

/-- `class Logger`, with the members of its `Impl`. -/
structure Logger where
  stream_ : LogStream
  level_ : LogLevel
  line_ : Int32
  basename_ : SourceFile
  time_ : Timestamp

/-- What a log statement finds: the time, and the memory of what it does not initialise. -/
structure Surroundings where
  /-- What `Timestamp::now` gives. -/
  now : Timestamp
  localtime : Int64 → Tm
  formatted : CharArray 34
  data_ : CharArray kSmallBuffer

namespace Logger

/-- `Impl::formatTime`. -/
def formatTime (around : Surroundings) (time_ : Timestamp) : Exec StdString := do
  let us := time_.microSecondsSinceEpoch_
  let seconds := us / kMircoSecondsPerSecond.toInt64
  let info := around.localtime seconds
  let (formatted, l) ← strftime around.formatted 20 info
  let formatted ← formatted.store l [0]
  let formatted ← sprintfBehind formatted (us % kMircoSecondsPerSecond.toInt64)
  StdString.ofArray formatted (by decide)

/-- `Logger(file, line, level)`. -/
def new (around : Surroundings) (file : SourceFile) (line : Int32) (level : LogLevel) :
    Exec Logger := do
  let time ← formatTime around around.now
  let stream_ ← (LogStream.init around.data_).insertString time
  let stream_ ← stream_.insertCStr (some (.ofLiteral " " (by decide)))
  let stream_ ← stream_.insertT (levelT level)
  return ⟨stream_, level, line, file, around.now⟩

/-- `Impl::finish`. -/
def finish (logger : Logger) : Exec Logger := do
  let stream_ ← logger.stream_.insertCStr (some (.ofLiteral " - " (by decide)))
  let stream_ ← stream_.insertSourceFile logger.basename_
  let stream_ ← stream_.insertCStr (some (.ofLiteral ":" (by decide)))
  let stream_ ← stream_.insertInt logger.line_
  let stream_ ← stream_.insertCStr (some (.ofLiteral "\n" (by decide)))
  return { logger with stream_ }

/-- `~Logger()`: what `g_output` is called with. -/
def destroy (logger : Logger) : Exec (List UInt8) := do
  let logger ← logger.finish
  let buf := logger.stream_.buffer_
  readBytes buf.data_.bytes (sizeOfInt buf.length)

end Logger

/-- `Logger(file, line, level).stream() << piece << ..`, with a path for the file. -/
def logStatement {Double : Type} (printed : Double → List UInt8) (around : Surroundings)
    (path : List UInt8) (line : Int32) (level : LogLevel) (pieces : List (Piece Double)) :
    Exec (List UInt8) := do
  let file ← SourceFile.ofArray (literalArray path)
  let logger ← Logger.new around file line level
  let stream_ ← AbortingRun.run (LogStream.insert printed) logger.stream_ pieces
  Logger.destroy { logger with stream_ }

end LearnUv.Log
