import LearnUv.Common.Memory

/-!
# `pingpong`

The two programs of `pingpong`: the client sends a block when it is connected, and from
then on each side sends back what it reads.  The callbacks of `server.cc` and `client.cc`
are below, in their order.

A callback is a function of the fields of its connection, of what libuv hands it and of
the globals it changes; what it has libuv do is its `Reaction`.  The status libuv returns
from a call that `check_uv` looks at is an argument.

The server reads into one global array and writes from it, the client reads into an array that
was allocated for the read.  Both give `uv_write` a length of their own: the server what was
read, the client the length of the array.

## Main Definitions

* `onReadClient`, `onNewConnection` — the server's callbacks
* `onConnect`, `onReadData` — the callbacks of the client
* `allocBuffer`, `commonAllocBuffer` — the memory each side reads into
-/

namespace LearnUv.PingPong

/-- The length of an array that is allocated with an `int`. -/
def intLen (n : Int32) : ℕ := n.toInt.toNat

theorem intLen_lt (n : Int32) : intLen n < 2 ^ 31 := by
  have hlt := n.toInt_lt
  rw [intLen]
  omega

theorem toNat_sizeOfInt_of_pos {n : Int32} (h : 0 < n) : (sizeOfInt n).toNat = intLen n :=
  toNat_sizeOfInt (Int.le_of_lt (Int32.lt_iff_toInt_lt.mp h))

/-- What a callback has libuv do with the stream. -/
inductive Reaction
  | nothing
  /-- `uv_close`. -/
  | close
  /-- `uv_write`. -/
  | write (ub : UvBuf)
  deriving DecidableEq

/-- The bytes that are to be written, as the array the buffer lies in holds them. -/
def Reaction.bytes {n : ℕ} (reaction : Reaction) (array : CharArray n) : List UInt8 :=
  match reaction with
  | .nothing => []
  | .close => []
  | .write ub => ub.bytes array

/-! ## `server.cc` -/

/-- `alloc_buffer`: all connections read into `msgBuf`. -/
def allocBuffer (inputBufSize : Int32) : UvBuf := uvBufInit (sizeOfInt inputBufSize)

/-- `on_read_client`. -/
def onReadClient (nread : ℤ) : Reaction :=
  if nread < 0 then .close
  else if nread = 0 then .nothing
  else .write (uvBufInit (UInt64.ofNat nread.toNat))

/-- `on_new_connection`: whether the connection is read from.  `accepted` and `started` are
what `uv_accept` and `uv_read_start` return. -/
def onNewConnection (status accepted started : Int32) : Exec Bool :=
  if status < 0 then return false
  else if accepted = 0 then do
    checkUv started
    return true
  else return false

/-! ## `client.cc` -/

/-- The globals that count the connections. -/
structure Counters where
  counter : Int32
  failed : Int32
  deriving DecidableEq, Repr

/-- `class Connection`, as far as the callbacks use it. -/
structure Connection where
  /-- `ssize_t bytesRead`. -/
  bytesRead : Int64
  deriving DecidableEq, Repr

/-- The memory of `clientBuf`, which `main` fills. -/
def block (blockSize : Int32) : CharArray (intLen blockSize) :=
  ⟨(List.range (intLen blockSize)).map fun i => UInt8.ofNat (i % 128), by simp⟩

/-- `clientBuf`. -/
def clientBuf (blockSize : Int32) : UvBuf := uvBufInit (sizeOfInt blockSize)

/-- `common_alloc_buffer`: memory of the size libuv suggests. -/
def commonAllocBuffer (suggestedSize : UInt64) : UvBuf := ⟨suggestedSize⟩

/-- `onConnect`.  `written` is what `uv_write` returns. -/
def onConnect (blockSize : Int32) (counters : Counters) (status written : Int32) :
    Exec (Counters × Reaction) :=
  if status < 0 then
    .ok (⟨counters.counter - 1, counters.failed + 1⟩, .nothing)
  else do
    checkUv written
    return (counters, .write (clientBuf blockSize))

/-- `onReadData`.  `written` is what `uv_write` returns. -/
def onReadData (connection : Connection) (nread : ℤ) (buf : UvBuf) (written : Int32) :
    Exec (Connection × Reaction) :=
  if nread < 0 then .ok (connection, .close)
  else if nread = 0 then .ok (connection, .nothing)
  else do
    checkUv written
    return (⟨connection.bytesRead + Int64.ofInt nread⟩, .write buf)

end LearnUv.PingPong
