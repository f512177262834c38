import LearnUv.Common.BufferSpec

/-!
# `Codec`

The length-prefixed framing of `chat`: a message is preceded by its length as a
four-byte big-endian number.  `onMessage` takes complete messages off the codec's
buffer and hands each to the callback; the callback is a parameter here, because the
server and the client set different ones.

The `while` loop of `onMessage` is the recursion of `onMessage` on its body
`onMessageStep`; it is well founded because an iteration that delivers a message
leaves fewer readable bytes (`readableBytes_of_onMessageStep`).

A header is read as a `uint32_t` and compared as an `int32_t`, so a length from `2 ^ 31` on is
rejected as a negative one.  The comparison with the readable bytes is one of `size_t`, and
asks for more than a header before it looks at one.  All of these conversions are kept, since
results about the loop have to say what happens at their bounds.

## Main Definitions

* `Codec.onMessage`, `Codec.onUvRead`, `Codec.encode` — the functions of the source
* `Read` — what libuv hands to a read callback that carries data
* `Codec.runReads` — a fresh codec fed with a sequence of reads
-/

namespace LearnUv

/-- `class Codec`. -/
structure Codec where
  buffer : Buffer

namespace Codec

/-- `Codec::kHeaderLen`. -/
def kHeaderLen : Int32 := 4

/-- `Codec::kMaxMessageSize`. -/
def kMaxMessageSize : Int32 := 4096

/-- `Codec()`. -/
def new : Codec := ⟨Buffer.new 8192 (by decide)⟩

/-- One evaluation of the condition and the body of the loop of `Codec::onMessage`:
the message handed to the callback and the buffer after it, or `none` when the loop
is left. -/
def onMessageStep (buffer : Buffer) : Exec (Option (List UInt8 × Buffer)) := do
  if sizeOfInt kHeaderLen < buffer.readableBytes then
    let word ← buffer.peekUInt32
    let len : Int32 := word.toInt32
    if kMaxMessageSize < len ∨ len < 0 then
      -- "message too long"
      return none
    else if sizeOfInt (len + kHeaderLen) ≤ buffer.readableBytes then
      let buffer ← buffer.retrieveUInt32
      let (msg, buffer) ← buffer.retrieveAsString (sizeOfInt len)
      return some (msg, buffer)
    else
      return none
  else
    return none

/-- An iteration that delivers a message takes a header off the buffer, and the message. -/
theorem exists_of_onMessageStep {buffer buffer' : Buffer} {msg : List UInt8}
    (h : onMessageStep buffer = .ok (some (msg, buffer'))) :
    ∃ (len : UInt64) (headless : Buffer), buffer.retrieve 4 = .ok headless ∧
      headless.retrieveAsString len = .ok (msg, buffer') := by
  unfold onMessageStep at h
  split at h
  · obtain ⟨word, -, h⟩ := AbortingRun.bind_eq_ok.mp h
    dsimp only at h
    split at h
    · cases h
    · split at h
      · obtain ⟨headless, hheader, h⟩ := AbortingRun.bind_eq_ok.mp h
        obtain ⟨⟨m, b⟩, hpayload, h⟩ := AbortingRun.bind_eq_ok.mp h
        cases h
        exact ⟨_, headless, hheader, hpayload⟩
      · cases h
  · cases h

/-- It leaves fewer readable bytes. -/
theorem readableBytes_of_onMessageStep {buffer buffer' : Buffer} {msg : List UInt8}
    (h : onMessageStep buffer = .ok (some (msg, buffer'))) :
    buffer'.readableBytes.toNat < buffer.readableBytes.toNat := by
  obtain ⟨len, headless, hheader, hpayload⟩ := exists_of_onMessageStep h
  obtain ⟨hfour, hheadless⟩ := Buffer.readableBytes_of_retrieve hheader
  obtain ⟨hlen, hbuffer'⟩ := Buffer.readableBytes_of_retrieveAsString hpayload
  -- four bytes of header, and then at most what is left
  rw [hbuffer', UInt64.toNat_sub_of_le _ _ hlen, hheadless, UInt64.toNat_sub_of_le _ _ hfour]
  have hpos := UInt64.le_iff_toNat_le.mp hfour
  rw [show (4 : UInt64).toNat = 4 from rfl] at hpos ⊢
  omega

/-- `Codec::onMessage`, with the callback `cb_` acting on a state `σ` of the program. -/
def onMessage {σ : Type} (cb_ : List UInt8 → σ → Exec σ) (buffer : Buffer) (s : σ) :
    Exec (Buffer × σ) :=
  match _h : onMessageStep buffer with
  | .error abort => .error abort
  | .ok none => .ok (buffer, s)
  | .ok (some (msg, buffer')) => cb_ msg s >>= fun s => onMessage cb_ buffer' s
termination_by buffer.readableBytes.toNat
decreasing_by exact readableBytes_of_onMessageStep _h

/-- `Codec::on_uv_read`. -/
def onUvRead {σ : Type} (cb_ : List UInt8 → σ → Exec σ) (codec : Codec) (nread : UInt64)
    (base : List UInt8) (s : σ) : Exec (Codec × σ) := do
  let buffer ← codec.buffer.append base nread
  let (buffer, s) ← onMessage cb_ buffer s
  return (⟨buffer⟩, s)

/-- `Codec::encode`. -/
def encode (buffer : Buffer) (msg : List UInt8) : Exec (Int32 × Buffer) := do
  let n ← strlen msg
  let len : Int32 := intOfSize n
  let buffer ← buffer.writeUInt32 len.toUInt32
  let buffer ← buffer.append msg (sizeOfInt len)
  return (len + kHeaderLen, buffer)

end Codec

/-! ## Reads -/

/-- A read callback with data: libuv put `nread` bytes at the start of the buffer at
`base`; what follows them there is whatever the memory held. -/
structure Read where
  base : List UInt8
  nread : UInt64
  /-- The bytes are inside the buffer. -/
  nread_le : nread.toNat ≤ base.length
  /-- `nread` was a non-negative `ssize_t`. -/
  nread_le_max : nread.toNat ≤ ptrdiffMax

namespace Read

/-- The bytes received. -/
def bytes (rd : Read) : List UInt8 := rd.base.take rd.nread.toNat

/-- The stream a sequence of reads delivers. -/
def stream (reads : List Read) : List UInt8 := (reads.map bytes).flatten

end Read

namespace Codec

/-- The callback that records the messages it is given. -/
def deliver (msg : List UInt8) (delivered : List (List UInt8)) :
    Exec (List (List UInt8)) := .ok (delivered ++ [msg])

/-- One `on_uv_read` of a codec whose callback records messages. -/
def readStep (state : Codec × List (List UInt8)) (rd : Read) :
    Exec (Codec × List (List UInt8)) :=
  state.1.onUvRead deliver rd.nread rd.base state.2

/-- A fresh codec fed with a sequence of reads: the codec and the messages delivered. -/
def runReads (reads : List Read) : Exec (Codec × List (List UInt8)) :=
  AbortingRun.run readStep (new, []) reads

end Codec

end LearnUv
