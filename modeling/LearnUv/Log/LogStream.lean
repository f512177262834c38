import LearnUv.Common.Memory
import LearnUv.Library.Decimal

/-!
# `LogStream`

The stream a log line is put together in: `FixedBuffer`, an array with a pointer to the
end of what is in it, and `LogStream`, which formats what is inserted into one of 4096
bytes.  The members are below in the order of `LogStream.h` and `LogStream.cpp`.

A pointer into the array of a `FixedBuffer` is an index of that array.  Every store goes
through `CharArray.store`, which does not return for an index outside of the array.

The free space is an `int`, as is the length of what is in the buffer; both are computed from
the difference of two pointers.  A text is appended when its length, which is a `size_t`, is
smaller than the free space converted to one.

## Main Definitions

* `FixedBuffer`, `FixedBuffer.append`, `FixedBuffer.add` — the buffer
* `convert` — the digits of an `int`
* `LogStream`, `LogStream.insert` — the stream, and its insertion operators

What `"%.12g"` prints for a `double` is a parameter.
-/

namespace LearnUv.Log

/-- `kSmallBuffer`. -/
def kSmallBuffer : ℕ := 4096

/-- `kMaxNumericSize`. -/
def kMaxNumericSize : Int32 := 32

/-- The characters of a string literal. -/
def literal (text : String) : List UInt8 := text.toList.map Char.toUInt8

/-! ## `FixedBuffer` -/

/-- `class FixedBuffer<SIZE>`. -/
structure FixedBuffer (SIZE : ℕ) where
  data_ : CharArray SIZE
  /-- The index `cur_` points to. -/
  cur_ : ℕ
  /-- It is a pointer into the array, or behind its last element. -/
  cur_le : cur_ ≤ SIZE
  deriving DecidableEq

namespace FixedBuffer

variable {SIZE : ℕ}

/-- `FixedBuffer()`.  The array is not initialised. -/
def init (memory : CharArray SIZE) : FixedBuffer SIZE := ⟨memory, 0, Nat.zero_le SIZE⟩

/-- `length()`. -/
def length (b : FixedBuffer SIZE) : Int32 := Int32.ofNat b.cur_

/-- `avail()`. -/
def avail (b : FixedBuffer SIZE) : Int32 := Int32.ofNat (SIZE - b.cur_)

/-- `add(len)`. -/
def add (b : FixedBuffer SIZE) (len : UInt64) : Exec (FixedBuffer SIZE) :=
  if h : b.cur_ + len.toNat ≤ SIZE then .ok ⟨b.data_, b.cur_ + len.toNat, h⟩
  else .error .outOfBounds

/-- `append(buf, len)`. -/
def append (b : FixedBuffer SIZE) (buf : List UInt8) (len : UInt64) :
    Exec (FixedBuffer SIZE) :=
  if len < sizeOfInt b.avail then do
    let src ← readBytes buf len
    let data_ ← b.data_.store b.cur_ src
    add ⟨data_, b.cur_, b.cur_le⟩ len
  else return b

/-- `toString()`. -/
def toString (b : FixedBuffer SIZE) : List UInt8 :=
  b.data_.bytes.take (sizeOfInt b.length).toNat

end FixedBuffer

/-! ## `convert` -/

/-- `digits`, with the NUL of the literal. -/
def digits : List UInt8 := cStr (literal "9876543210123456789")

/-- `zero[lsd]`, where `zero` points to `digits[9]`. -/
def zeroAt (lsd : Int32) : Exec UInt8 :=
  if 0 ≤ 9 + lsd.toInt then
    match digits[(9 + lsd.toInt).toNat]? with
    | some c => .ok c
    | none => .error .outOfBounds
  else .error .outOfBounds

theorem toInt_div_ten (i : Int32) : (i / 10).toInt = i.toInt.tdiv 10 :=
  Int32.toInt_div_of_ne_right i 10 (by decide)

theorem toInt_mod_ten (i : Int32) : (i % 10).toInt = i.toInt.tmod 10 := Int32.toInt_mod i 10

theorem natAbs_div_ten (i : Int32) : (i / 10).toInt.natAbs = i.toInt.natAbs / 10 := by
  rw [toInt_div_ten, Int.natAbs_tdiv]
  rfl

section Convert

variable {n : ℕ}

/-- The loop of `convert`, from `p` on. -/
def convertLoop (array : CharArray n) (p : ℕ) (i : Int32) : Exec (CharArray n × ℕ) := do
  let lsd := i % 10
  let c ← zeroAt lsd
  let array ← array.store p [c]
  if h : i / 10 ≠ 0 then convertLoop array (p + 1) (i / 10)
  else return (array, p + 1)
termination_by i.toInt.natAbs
decreasing_by
  have hne : (i / 10).toInt ≠ 0 := fun hzero => h (Int32.toInt_inj.mp hzero)
  have hquot := natAbs_div_ten i
  omega

/-- `convert(buf, value)`, where `buf` points into an array. -/
def convert (array : CharArray n) (buf : ℕ) (value : Int32) : Exec (CharArray n × UInt64) := do
  let (array, p) ← convertLoop array buf value
  let array ← array.store p [0]
  -- the last digit was stored first
  let array ← array.reverse buf p
  return (array, UInt64.ofNat (p - buf))

/-- `snprintf(buf, size, ..)`, where `text` is what the format prints. -/
def snprintf (array : CharArray n) (buf size : ℕ) (text : List UInt8) :
    Exec (CharArray n × Int32) := do
  let array ← array.store buf (cStr (text.take (size - 1)))
  return (array, Int32.ofNat text.length)

end Convert

/-! ## `LogStream` -/

/-- `class LogStream`. -/
structure LogStream where
  buffer_ : FixedBuffer kSmallBuffer
  deriving DecidableEq

/-- A `const char *` that points to a C string. -/
structure CString where
  /-- The memory from there on. -/
  bytes : List UInt8
  zero_mem : 0 ∈ bytes
  length_le : bytes.length ≤ ptrdiffMax

/-- `std::string`. -/
structure StdString where
  bytes : List UInt8
  length_lt : bytes.length < ptrdiffMax
  deriving DecidableEq

/-- With the NUL a string still is an object. -/
theorem StdString.length_cStr_le (str : StdString) : (cStr str.bytes).length ≤ ptrdiffMax := by
  have hlt := str.length_lt
  rw [cStr, List.length_append, List.length_singleton]
  omega

/-- `str.c_str()`. -/
def StdString.c_str (str : StdString) : CString where
  bytes := cStr str.bytes
  zero_mem := zero_mem_cStr str.bytes
  length_le := str.length_cStr_le

namespace LogStream

/-- `LogStream()`. -/
def init (memory : CharArray kSmallBuffer) : LogStream := ⟨FixedBuffer.init memory⟩

/-- `append(data, len)`. -/
def append (s : LogStream) (data : List UInt8) (len : Int32) : Exec LogStream := do
  let buffer_ ← s.buffer_.append data (sizeOfInt len)
  return { buffer_ }

/-- `formatInteger(v)`, for an `int`. -/
def formatInteger (s : LogStream) (v : Int32) : Exec LogStream :=
  if s.buffer_.avail ≥ kMaxNumericSize then do
    let (data_, len) ← convert s.buffer_.data_ s.buffer_.cur_ v
    let buffer_ ← FixedBuffer.add ⟨data_, s.buffer_.cur_, s.buffer_.cur_le⟩ len
    return { buffer_ }
  else return s

/-- `operator<<(const char *)`. -/
def insertCStr (s : LogStream) : Option CString → Exec LogStream
  | some str => do
      let len ← strlen str.bytes
      let buffer_ ← s.buffer_.append str.bytes len
      return { buffer_ }
  | none => do
      let buffer_ ← s.buffer_.append (cStr (literal "(null)")) 6
      return { buffer_ }

/-- `operator<<(std::string)`. -/
def insertString (s : LogStream) (str : StdString) : Exec LogStream :=
  s.insertCStr (some str.c_str)

/-- `operator<<(int)`. -/
def insertInt (s : LogStream) (v : Int32) : Exec LogStream := s.formatInteger v

/-- `operator<<(double)`. -/
def insertDouble {Double : Type} (printed : Double → List UInt8) (s : LogStream)
    (v : Double) : Exec LogStream :=
  if s.buffer_.avail ≥ kMaxNumericSize then do
    let (data_, len) ←
      snprintf s.buffer_.data_ s.buffer_.cur_ (sizeOfInt kMaxNumericSize).toNat (printed v)
    let buffer_ ← FixedBuffer.add ⟨data_, s.buffer_.cur_, s.buffer_.cur_le⟩ (sizeOfInt len)
    return { buffer_ }
  else return s

end LogStream

/-- What is inserted into a stream. -/
inductive Piece (Double : Type)
  | cstr (str : Option CString)
  | string (str : StdString)
  | int (v : Int32)
  | double (v : Double)
  /-- `append(data, len)`. -/
  | append (data : List UInt8) (len : Int32)

/-- The insertion of a piece. -/
def LogStream.insert {Double : Type} (printed : Double → List UInt8) (s : LogStream) :
    Piece Double → Exec LogStream
  | .cstr str => s.insertCStr str
  | .string str => s.insertString str
  | .int v => s.insertInt v
  | .double v => s.insertDouble printed v
  | .append data len => s.append data len

end LearnUv.Log
