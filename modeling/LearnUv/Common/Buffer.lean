import LearnUv.Common.Memory

/-!
# `Buffer`

The byte buffer of `common/buffer`: a `std::vector<char>` with a reader index and a
writer index.  The functions below are those of the class, in the order in which
the class gives them, each with the arithmetic of `size_t`.

The class says nothing about how its three fields are related; that
`readerIndex_ <= writerIndex_ <= buffer_.size()` is proved of what the operations
reach (`LearnUv.Common.BufferSpec`), so it is not a field here.

Lengths are `size_t`, so a length that comes from a negative number is close to `2 ^ 64`, and
sums with it wrap around.  A member that would touch memory outside of the vector, or whose
`assert` fails, does not return; `std::vector::resize` throws when it is asked for more than
the largest size.  Which of these happens is decided by the arithmetic below, in the order in
which the source does it.
-/

namespace LearnUv

/-- `class Buffer`. -/
structure Buffer where
  buffer_ : CharVector
  readerIndex_ : UInt64
  writerIndex_ : UInt64
  deriving DecidableEq

namespace Buffer

/-- `Buffer::kInitialSize`. -/
def kInitialSize : UInt64 := 1024

/-- `Buffer(size_t initialSize)`.  Above `max_size()` the vector's constructor throws
and there is no `Buffer`. -/
def new (initialSize : UInt64) (h : initialSize.toNat ≤ ptrdiffMax) : Buffer where
  buffer_ := CharVector.zeros initialSize h
  readerIndex_ := 0
  writerIndex_ := 0

theorem kInitialSize_le : kInitialSize.toNat ≤ ptrdiffMax := by decide

/-- `Buffer()`, with the default initial size. -/
def ofDefault : Buffer := new kInitialSize kInitialSize_le

/-- `Buffer::swap`: the two buffers afterwards. -/
def swap (this rhs : Buffer) : Buffer × Buffer :=
  (⟨rhs.buffer_, rhs.readerIndex_, rhs.writerIndex_⟩,
    ⟨this.buffer_, this.readerIndex_, this.writerIndex_⟩)

/-- `Buffer::readableBytes`. -/
def readableBytes (b : Buffer) : UInt64 := b.writerIndex_ - b.readerIndex_

/-- `Buffer::writeableBytes`. -/
def writeableBytes (b : Buffer) : UInt64 := b.buffer_.size - b.writerIndex_

/-- `Buffer::prependableBytes`. -/
def prependableBytes (b : Buffer) : UInt64 := b.readerIndex_

/-- `Buffer::retrieveAll`. -/
def retrieveAll (b : Buffer) : Buffer := { b with readerIndex_ := 0, writerIndex_ := 0 }

/-- `Buffer::retrieve`. -/
def retrieve (b : Buffer) (len : UInt64) : Exec Buffer := do
  assertThat .retrieve (len ≤ b.readableBytes)
  if len < b.readableBytes then
    return { b with readerIndex_ := b.readerIndex_ + len }
  else
    return b.retrieveAll

/-- `Buffer::peek`: `begin() + readerIndex_`. -/
def peek (b : Buffer) : List UInt8 := b.buffer_.bytes.drop b.readerIndex_.toNat

/-- `Buffer::retrieveAsString`. -/
def retrieveAsString (b : Buffer) (len : UInt64) : Exec (List UInt8 × Buffer) := do
  assertThat .retrieveAsString (len ≤ b.readableBytes)
  let ret ← readBytes b.peek len
  let b ← b.retrieve len
  return (ret, b)

/-- `Buffer::makeSpace`. -/
def makeSpace (b : Buffer) (len : UInt64) : Exec Buffer := do
  if b.writeableBytes + b.prependableBytes < len then
    let buffer_ ← b.buffer_.resize (b.writerIndex_ + len)
    return { b with buffer_ }
  else
    let readable := b.readableBytes
    let buffer_ ← b.buffer_.copy 0 b.peek (b.writerIndex_ - b.readerIndex_)
    let b := { b with buffer_, readerIndex_ := 0 }
    -- `writerIndex_ -= readerIndex_` comes after `readerIndex_ = 0`
    let b := { b with writerIndex_ := b.writerIndex_ - b.readerIndex_ }
    assertThat .makeSpace (readable = b.readableBytes)
    return b

/-- `Buffer::ensureWriableBytes`. -/
def ensureWriableBytes (b : Buffer) (len : UInt64) : Exec Buffer := do
  let b ← if b.writeableBytes < len then b.makeSpace len else pure b
  assertThat .ensureWriableBytes (len ≤ b.writeableBytes)
  return b

/-- `Buffer::append`. -/
def append (b : Buffer) (data : List UInt8) (len : UInt64) : Exec Buffer := do
  let b ← b.ensureWriableBytes len
  let buffer_ ← b.buffer_.copy b.writerIndex_ data len
  return { b with buffer_, writerIndex_ := b.writerIndex_ + len }

/-- `Buffer::peekUInt32`. -/
def peekUInt32 (b : Buffer) : Exec UInt32 := do
  assertThat .peekUInt32 (4 ≤ b.readableBytes)
  let ret ← readBytes b.peek 4
  return ntohl ret

/-- `Buffer::retrieveUInt32`. -/
def retrieveUInt32 (b : Buffer) : Exec Buffer := b.retrieve 4

/-- `Buffer::readUInt32`. -/
def readUInt32 (b : Buffer) : Exec (UInt32 × Buffer) := do
  let ret ← b.peekUInt32
  let b ← b.retrieveUInt32
  return (ret, b)

/-- `Buffer::writeUInt32`. -/
def writeUInt32 (b : Buffer) (hn : UInt32) : Exec Buffer := b.append (uint32Bytes hn) 4

end Buffer

end LearnUv
