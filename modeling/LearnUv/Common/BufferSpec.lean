import LearnUv.Common.Buffer

/-!
# What the operations of `Buffer` do

A `Buffer` whose indices are ordered holds a byte string: the bytes between the two
indices.  `Buffer.Holds b q` says that the indices of `b` are ordered and that this
byte string is `q`; each operation gets one lemma that says what it does to `q`,
and callers use these lemmas and never unfold an operation.

`append` has four outcomes.  With room behind the writer index it stores in place;
with too little room on both sides together it grows the vector, unless that would
exceed `max_size()`; and with enough room on both sides together, but too little
behind, it means to move the unread bytes to the front.  That last path zeroes
`readerIndex_` before it subtracts it from `writerIndex_`, so the writer index
stays where it was, the number of readable bytes changes, and the `assert` on it
fails: `append_of_movesData`.

A length that was converted from a negative number is a case of its own.  The sum with the
writer index wraps, so the vector is made shorter instead of longer, and the buffer loses
bytes from its end, or ends up with its indices in the wrong order:
`Holds.append_of_negative`.
-/

namespace LearnUv

namespace Buffer

/-- The class invariant: `readerIndex_ <= writerIndex_ <= buffer_.size()`. -/
structure Wf (b : Buffer) : Prop where
  reader_le_writer : b.readerIndex_ ≤ b.writerIndex_
  writer_le_size : b.writerIndex_ ≤ b.buffer_.size

/-- The bytes between the two indices. -/
def unread (b : Buffer) : List UInt8 := b.peek.take b.readableBytes.toNat

/-- `b` is well formed and holds the byte string `q`. -/
structure Holds (b : Buffer) (q : List UInt8) : Prop where
  wf : b.Wf
  unread_eq : b.unread = q

/-- `append(data, len)` takes the path of `makeSpace` that moves data to the front:
too little room behind the writer index, enough in front and behind together. -/
def MovesData (b : Buffer) (len : UInt64) : Prop :=
  b.writeableBytes < len ∧ len ≤ b.writeableBytes + b.prependableBytes

instance decidableMovesData (b : Buffer) (len : UInt64) : Decidable (b.MovesData len) :=
  inferInstanceAs (Decidable (_ ∧ _))

/-- `append(data, len)` needs the vector to grow above `max_size()`. -/
def Outgrows (b : Buffer) (len : UInt64) : Prop :=
  b.writeableBytes + b.prependableBytes < len ∧
    ptrdiffMax < b.writerIndex_.toNat + len.toNat

/-! ## Sizes of a well-formed buffer -/

section Sizes

variable {b : Buffer} {q : List UInt8}

theorem Wf.toNat_reader_le (h : b.Wf) : b.readerIndex_.toNat ≤ b.writerIndex_.toNat :=
  UInt64.le_iff_toNat_le.mp h.reader_le_writer

theorem Wf.toNat_writer_le (h : b.Wf) : b.writerIndex_.toNat ≤ b.buffer_.bytes.length := by
  simpa using UInt64.le_iff_toNat_le.mp h.writer_le_size

theorem Wf.of_toNat (hr : b.readerIndex_.toNat ≤ b.writerIndex_.toNat)
    (hw : b.writerIndex_.toNat ≤ b.buffer_.bytes.length) : b.Wf :=
  ⟨UInt64.le_iff_toNat_le.mpr hr, UInt64.le_iff_toNat_le.mpr (by simpa using hw)⟩

theorem Wf.toNat_readableBytes (h : b.Wf) :
    b.readableBytes.toNat = b.writerIndex_.toNat - b.readerIndex_.toNat :=
  UInt64.toNat_sub_of_le _ _ h.reader_le_writer

theorem Wf.toNat_writeableBytes (h : b.Wf) :
    b.writeableBytes.toNat = b.buffer_.bytes.length - b.writerIndex_.toNat := by
  rw [writeableBytes, UInt64.toNat_sub_of_le _ _ h.writer_le_size, CharVector.toNat_size]

/-- The room on both sides together does not wrap: it is at most the vector's size. -/
theorem Wf.toNat_room (h : b.Wf) :
    (b.writeableBytes + b.prependableBytes).toNat =
      b.buffer_.bytes.length - b.writerIndex_.toNat + b.readerIndex_.toNat := by
  have hr := h.toNat_reader_le
  have hw := h.toNat_writer_le
  have hmax := b.buffer_.length_le
  unfold ptrdiffMax at hmax
  rw [UInt64.toNat_add, h.toNat_writeableBytes, prependableBytes, Nat.mod_eq_of_lt]
  omega

/-- Too little room on both sides together is too little behind the writer index. -/
theorem Wf.writeableBytes_lt {len : UInt64} (h : b.Wf)
    (hroom : b.writeableBytes + b.prependableBytes < len) : b.writeableBytes < len := by
  rw [UInt64.lt_iff_toNat_lt, h.toNat_room] at hroom
  rw [UInt64.lt_iff_toNat_lt, h.toNat_writeableBytes]
  omega

theorem Wf.length_unread (h : b.Wf) : b.unread.length = b.readableBytes.toNat := by
  have hr := h.toNat_reader_le
  have hw := h.toNat_writer_le
  rw [unread, List.length_take, peek, List.length_drop, h.toNat_readableBytes]
  omega

theorem Holds.length_eq (h : b.Holds q) : q.length = b.readableBytes.toNat := by
  rw [← h.unread_eq]
  exact h.wf.length_unread

theorem Holds.length_eq_sub (h : b.Holds q) :
    q.length = b.writerIndex_.toNat - b.readerIndex_.toNat := by
  rw [h.length_eq, h.wf.toNat_readableBytes]

/-- A length the class compares with `readableBytes()`, compared with the queue. -/
theorem Holds.toNat_le_length {len : UInt64} (h : b.Holds q) (hlen : len ≤ b.readableBytes) :
    len.toNat ≤ q.length := by
  rw [h.length_eq]
  exact UInt64.le_iff_toNat_le.mp hlen

/-- No buffer holds more than one object can. -/
theorem Holds.length_le (h : b.Holds q) : q.length ≤ ptrdiffMax := by
  have hwriter := h.wf.toNat_writer_le
  have hsize := b.buffer_.length_le
  rw [h.length_eq_sub]
  omega

/-- What can be read through `peek` starts with what the buffer holds. -/
theorem Holds.take_peek (h : b.Holds q) {k : ℕ} (hk : k ≤ q.length) :
    k ≤ b.peek.length ∧ b.peek.take k = q.take k := by
  have hq := h.unread_eq
  rw [unread] at hq
  have hlen := h.length_eq
  constructor
  · rw [← hq, List.length_take] at hk
    exact hk.trans (Nat.min_le_right _ _)
  · rw [← hq, List.take_take, Nat.min_eq_left (hlen ▸ hk)]

theorem Holds.readBytes_peek {len : UInt64} (h : b.Holds q) (hlen : len.toNat ≤ q.length) :
    readBytes b.peek len = .ok (q.take len.toNat) :=
  readBytes_eq_ok.mpr (h.take_peek hlen)

/-- Everything up to the writer index: what was retrieved, and the unread bytes. -/
theorem Holds.take_writer (h : b.Holds q) :
    b.buffer_.bytes.take b.writerIndex_.toNat =
      b.buffer_.bytes.take b.readerIndex_.toNat ++ q := by
  have hr := h.wf.toNat_reader_le
  have hsplit : b.writerIndex_.toNat =
      b.readerIndex_.toNat + (b.writerIndex_.toNat - b.readerIndex_.toNat) := by omega
  rw [← h.unread_eq, unread, peek, h.wf.toNat_readableBytes, hsplit, List.take_add]
  simp

/-- A buffer holds `q` when its storage shows `q` between the two indices. -/
theorem Holds.of_take_writer (front : List UInt8)
    (hw : b.writerIndex_.toNat ≤ b.buffer_.bytes.length)
    (hfront : front.length = b.readerIndex_.toNat)
    (htake : b.buffer_.bytes.take b.writerIndex_.toNat = front ++ q) : b.Holds q := by
  have hlen := congrArg List.length htake
  rw [List.length_take, List.length_append, hfront] at hlen
  have hwf : b.Wf := Wf.of_toNat (by omega) hw
  refine ⟨hwf, ?_⟩
  rw [unread, peek, hwf.toNat_readableBytes, ← List.drop_take, htake, ← hfront,
    List.drop_left]

end Sizes

/-! ## Construction and the index operations -/

section Retrieve

variable {b : Buffer} {q : List UInt8} {len : UInt64}

/-- A new buffer is empty. -/
theorem holds_new (initialSize : UInt64) (h : initialSize.toNat ≤ ptrdiffMax) :
    (new initialSize h).Holds [] := by
  refine Holds.of_take_writer [] ?_ rfl ?_
  · simp [new]
  · simp [new]

theorem holds_ofDefault : ofDefault.Holds [] := holds_new kInitialSize kInitialSize_le

/-- `retrieveAll` empties the buffer. -/
theorem holds_retrieveAll (b : Buffer) : b.retrieveAll.Holds [] :=
  Holds.of_take_writer [] (by simp [retrieveAll]) rfl (by simp [retrieveAll])

/-- `retrieve` drops exactly `len` bytes from the head. -/
theorem Holds.retrieve (h : b.Holds q) (hlen : len.toNat ≤ q.length) :
    ∃ b', b.retrieve len = .ok b' ∧ b'.Holds (q.drop len.toNat) := by
  have hreadable : len ≤ b.readableBytes :=
    UInt64.le_iff_toNat_le.mpr (h.length_eq ▸ hlen)
  have hr := h.wf.toNat_reader_le
  have hw := h.wf.toNat_writer_le
  have hlt := b.writerIndex_.toNat_lt
  rw [Buffer.retrieve, assertThat_of hreadable, AbortingRun.ok_bind]
  by_cases hless : len < b.readableBytes
  · refine ⟨_, if_pos hless, ?_⟩
    have hlen' := UInt64.lt_iff_toNat_lt.mp hless
    rw [h.wf.toNat_readableBytes] at hlen'
    have hreader : (b.readerIndex_ + len).toNat = b.readerIndex_.toNat + len.toNat := by
      rw [UInt64.toNat_add]
      omega
    refine Holds.of_take_writer
      (b.buffer_.bytes.take b.readerIndex_.toNat ++ q.take len.toNat) hw ?_ ?_
    · rw [hreader, List.length_append, List.length_take, List.length_take,
        Nat.min_eq_left hlen, Nat.min_eq_left (hr.trans hw)]
    · rw [h.take_writer, List.append_assoc, List.take_append_drop]
  · refine ⟨_, if_neg hless, ?_⟩
    have hall : q.drop len.toNat = [] := by
      rw [UInt64.lt_iff_toNat_lt, ← h.length_eq] at hless
      exact List.drop_eq_nil_of_le (by omega)
    rw [hall]
    exact b.holds_retrieveAll

/-- Whatever the indices are, a `retrieve` that returns took `len` off the number of
readable bytes. -/
theorem readableBytes_of_retrieve {b' : Buffer} (h : b.retrieve len = .ok b') :
    len ≤ b.readableBytes ∧ b'.readableBytes = b.readableBytes - len := by
  rw [Buffer.retrieve, AbortingRun.bind_eq_ok] at h
  obtain ⟨_, hassert, h⟩ := h
  have hle := assertThat_eq_ok.mp hassert
  refine ⟨hle, ?_⟩
  split at h
  · cases h
    show b.writerIndex_ - (b.readerIndex_ + len) = b.writerIndex_ - b.readerIndex_ - len
    grind
  · next hless =>
      cases h
      have heq : len = b.readableBytes := UInt64.le_antisymm hle (UInt64.not_lt.mp hless)
      rw [heq, UInt64.sub_self]
      exact UInt64.sub_self 0

/-- Likewise for a `retrieveAsString` that returns. -/
theorem readableBytes_of_retrieveAsString {b' : Buffer} {ret : List UInt8}
    (h : b.retrieveAsString len = .ok (ret, b')) :
    len ≤ b.readableBytes ∧ b'.readableBytes = b.readableBytes - len := by
  rw [Buffer.retrieveAsString, AbortingRun.bind_eq_ok] at h
  obtain ⟨_, -, h⟩ := h
  obtain ⟨_, -, h⟩ := AbortingRun.bind_eq_ok.mp h
  obtain ⟨b₁, hretrieve, h⟩ := AbortingRun.bind_eq_ok.mp h
  cases h
  exact readableBytes_of_retrieve hretrieve

/-- `retrieveAsString` takes exactly `len` bytes off the head. -/
theorem Holds.retrieveAsString (h : b.Holds q) (hlen : len.toNat ≤ q.length) :
    ∃ b', b.retrieveAsString len = .ok (q.take len.toNat, b') ∧
      b'.Holds (q.drop len.toNat) := by
  have hreadable : len ≤ b.readableBytes :=
    UInt64.le_iff_toNat_le.mpr (h.length_eq ▸ hlen)
  obtain ⟨b', hb', hholds⟩ := h.retrieve hlen
  refine ⟨b', ?_, hholds⟩
  rw [Buffer.retrieveAsString, assertThat_of hreadable, AbortingRun.ok_bind,
    h.readBytes_peek hlen, AbortingRun.ok_bind, hb', AbortingRun.ok_bind,
    AbortingRun.pure_eq_ok]

/-- `peekUInt32` reads the first four bytes as a big-endian number. -/
theorem Holds.peekUInt32 (h : b.Holds q) (hlen : 4 ≤ q.length) :
    b.peekUInt32 = .ok (ntohl (q.take 4)) := by
  have hreadable : 4 ≤ b.readableBytes :=
    UInt64.le_iff_toNat_le.mpr (by rw [← h.length_eq]; exact hlen)
  have hread : readBytes b.peek 4 = .ok (q.take 4) := h.readBytes_peek hlen
  rw [Buffer.peekUInt32, assertThat_of hreadable, AbortingRun.ok_bind, hread,
    AbortingRun.ok_bind, AbortingRun.pure_eq_ok]

/-- `retrieveUInt32` drops the first four bytes. -/
theorem Holds.retrieveUInt32 (h : b.Holds q) (hlen : 4 ≤ q.length) :
    ∃ b', b.retrieveUInt32 = .ok b' ∧ b'.Holds (q.drop 4) := by
  have hlen' : (4 : UInt64).toNat ≤ q.length := hlen
  exact h.retrieve hlen'

/-- `readUInt32` takes the first four bytes off as a big-endian number. -/
theorem Holds.readUInt32 (h : b.Holds q) (hlen : 4 ≤ q.length) :
    ∃ b', b.readUInt32 = .ok (ntohl (q.take 4), b') ∧ b'.Holds (q.drop 4) := by
  obtain ⟨b', hb', hholds⟩ := h.retrieveUInt32 hlen
  refine ⟨b', ?_, hholds⟩
  rw [Buffer.readUInt32, h.peekUInt32 hlen, AbortingRun.ok_bind, hb', AbortingRun.ok_bind,
    AbortingRun.pure_eq_ok]

end Retrieve

/-! ## `append` -/

section Append

variable {b : Buffer} {q data : List UInt8} {len : UInt64}

/-- Storing `len` bytes behind the writer index of a buffer that has room for them
appends them. -/
theorem Holds.store (h : b.Holds q) (hdata : len.toNat ≤ data.length)
    (hroom : len ≤ b.writeableBytes) :
    ∃ v, b.buffer_.copy b.writerIndex_ data len = .ok v ∧
      v.bytes.length = b.buffer_.bytes.length ∧
      Holds ⟨v, b.readerIndex_, b.writerIndex_ + len⟩ (q ++ data.take len.toNat) := by
  have hr := h.wf.toNat_reader_le
  have hw := h.wf.toNat_writer_le
  have hmax := b.buffer_.length_le
  have hroom' := UInt64.le_iff_toNat_le.mp hroom
  rw [h.wf.toNat_writeableBytes] at hroom'
  have hfit : b.writerIndex_.toNat + (data.take len.toNat).length ≤
      b.buffer_.bytes.length := by
    rw [List.length_take]
    omega
  have hwriter : (b.writerIndex_ + len).toNat =
      b.writerIndex_.toNat + (data.take len.toNat).length := by
    unfold ptrdiffMax at hmax
    rw [UInt64.toNat_add, List.length_take, Nat.min_eq_left hdata, Nat.mod_eq_of_lt]
    omega
  have hdst : b.writerIndex_.toNat + len.toNat ≤ b.buffer_.bytes.length := by omega
  obtain ⟨v, hv, hbytes⟩ := CharVector.store_of_fits hdata hdst
  have hlength : v.bytes.length = b.buffer_.bytes.length := by
    rw [hbytes, length_overwrite hfit]
  refine ⟨v, (CharVector.copy_of_le (by omega)).trans hv, hlength, ?_⟩
  refine Holds.of_take_writer (b.buffer_.bytes.take b.readerIndex_.toNat) ?_ ?_ ?_
  · rw [hwriter, hlength]
    exact hfit
  · rw [List.length_take]
    exact Nat.min_eq_left (hr.trans hw)
  · rw [hwriter, hbytes, take_overwrite hw, h.take_writer, List.append_assoc]

/-- `ensureWriableBytes` returns at once when there is room. -/
theorem ensureWriableBytes_of_fits (hroom : len ≤ b.writeableBytes) :
    b.ensureWriableBytes len = .ok b := by
  simp [ensureWriableBytes, UInt64.not_lt.mpr hroom, assertThat_of hroom]

/-- Otherwise it calls `makeSpace`, and checks the room that made. -/
theorem ensureWriableBytes_of_not_fits (hroom : b.writeableBytes < len) :
    b.ensureWriableBytes len = b.makeSpace len >>= fun b' =>
      assertThat .ensureWriableBytes (len ≤ b'.writeableBytes) >>= fun _ => .ok b' := by
  simp [ensureWriableBytes, hroom]

/-- Room behind the writer index: the bytes are stored in place. -/
theorem Holds.append_of_fits (h : b.Holds q) (hdata : len.toNat ≤ data.length)
    (hroom : len ≤ b.writeableBytes) :
    ∃ b', b.append data len = .ok b' ∧ b'.Holds (q ++ data.take len.toNat) ∧
      b'.readerIndex_ = b.readerIndex_ ∧
      b'.buffer_.bytes.length = b.buffer_.bytes.length := by
  obtain ⟨v, hv, hlength, hholds⟩ := h.store hdata hroom
  refine ⟨_, ?_, hholds, rfl, hlength⟩
  rw [append, ensureWriableBytes_of_fits hroom, AbortingRun.ok_bind, hv, AbortingRun.ok_bind,
    AbortingRun.pure_eq_ok]

/-- The vector grows: it keeps what it held, and then has room for `len` bytes. -/
theorem Holds.makeSpace_of_grows (h : b.Holds q)
    (hroom : b.writeableBytes + b.prependableBytes < len)
    (hsize : b.writerIndex_.toNat + len.toNat ≤ ptrdiffMax) :
    ∃ b', b.makeSpace len = .ok b' ∧ b'.Holds q ∧ len ≤ b'.writeableBytes ∧
      b'.readerIndex_ = b.readerIndex_ ∧
      b'.buffer_.bytes.length = b.writerIndex_.toNat + len.toNat := by
  have hw := h.wf.toNat_writer_le
  have hroom' := UInt64.lt_iff_toNat_lt.mp hroom
  rw [h.wf.toNat_room] at hroom'
  have hsum : (b.writerIndex_ + len).toNat = b.writerIndex_.toNat + len.toNat := by
    unfold ptrdiffMax at hsize
    rw [UInt64.toNat_add, Nat.mod_eq_of_lt]
    omega
  have hle : (b.writerIndex_ + len).toNat ≤ ptrdiffMax := hsum ▸ hsize
  obtain ⟨v, hv, hbytes⟩ := CharVector.resize_of_le (v := b.buffer_) hle
  rw [hsum, List.take_of_length_le (by omega)] at hbytes
  have hlength : v.bytes.length = b.writerIndex_.toNat + len.toNat := by
    rw [hbytes, List.length_append, List.length_replicate]
    omega
  have hholds : Holds ⟨v, b.readerIndex_, b.writerIndex_⟩ q := by
    refine Holds.of_take_writer (b.buffer_.bytes.take b.readerIndex_.toNat) ?_ ?_ ?_
    · rw [hlength]
      exact Nat.le_add_right _ _
    · rw [List.length_take]
      exact Nat.min_eq_left (h.wf.toNat_reader_le.trans hw)
    · rw [hbytes, List.take_append_of_le_length hw, h.take_writer]
  refine ⟨_, ?_, hholds, ?_, rfl, hlength⟩
  · rw [makeSpace, if_pos hroom, hv, AbortingRun.ok_bind, AbortingRun.pure_eq_ok]
  · rw [UInt64.le_iff_toNat_le, hholds.wf.toNat_writeableBytes, hlength]
    show len.toNat ≤ b.writerIndex_.toNat + len.toNat - b.writerIndex_.toNat
    omega

/-- Too little room on both sides together: the vector grows to exactly the writer
index plus `len`, and the bytes are stored behind the unread ones. -/
theorem Holds.append_of_grows (h : b.Holds q) (hdata : len.toNat ≤ data.length)
    (hroom : b.writeableBytes + b.prependableBytes < len)
    (hsize : b.writerIndex_.toNat + len.toNat ≤ ptrdiffMax) :
    ∃ b', b.append data len = .ok b' ∧ b'.Holds (q ++ data.take len.toNat) ∧
      b'.readerIndex_ = b.readerIndex_ ∧
      b'.buffer_.bytes.length = b.writerIndex_.toNat + len.toNat := by
  have hless : b.writeableBytes < len := h.wf.writeableBytes_lt hroom
  obtain ⟨b₁, hb₁, hholds₁, hroom₁, hreader₁, hlength₁⟩ := h.makeSpace_of_grows hroom hsize
  obtain ⟨b₂, hb₂, hholds₂, hreader₂, hlength₂⟩ := hholds₁.append_of_fits hdata hroom₁
  refine ⟨b₂, ?_, hholds₂, hreader₂.trans hreader₁, hlength₂.trans hlength₁⟩
  rw [append, ensureWriableBytes_of_fits hroom₁] at hb₂
  rw [append, ensureWriableBytes_of_not_fits hless, hb₁, AbortingRun.ok_bind,
    assertThat_of hroom₁]
  exact hb₂

/-- The vector would have to grow above `max_size()`: `resize` throws. -/
theorem append_of_outgrows (hwf : b.Wf) (hgrow : b.Outgrows len)
    (hlen : len.toNat ≤ ptrdiffMax) : b.append data len = .error .lengthError := by
  obtain ⟨hroom, hsize⟩ := hgrow
  have hw := hwf.toNat_writer_le
  have hmax := b.buffer_.length_le
  have hless : b.writeableBytes < len := hwf.writeableBytes_lt hroom
  have hsum : ptrdiffMax < (b.writerIndex_ + len).toNat := by
    unfold ptrdiffMax at hlen hmax hsize ⊢
    rw [UInt64.toNat_add, Nat.mod_eq_of_lt]
    · exact hsize
    · omega
  rw [append, ensureWriableBytes_of_not_fits hless, makeSpace, if_pos hroom,
    CharVector.resize_of_gt hsum]
  rfl

/-- With room on both sides together, `makeSpace` copies the unread bytes to the
front and then compares the number of readable bytes before and after. -/
theorem makeSpace_of_room (hroom : len ≤ b.writeableBytes + b.prependableBytes) :
    b.makeSpace len =
      b.buffer_.copy 0 b.peek (b.writerIndex_ - b.readerIndex_) >>= fun v =>
        assertThat .makeSpace
            (b.readableBytes = readableBytes ⟨v, 0, b.writerIndex_ - 0⟩) >>= fun _ =>
          .ok ⟨v, 0, b.writerIndex_ - 0⟩ := by
  rw [makeSpace, if_neg (UInt64.not_lt.mpr hroom)]
  rfl

/-- The moving path and the growing path exclude each other. -/
theorem Outgrows.not_movesData (h : b.Outgrows len) : ¬b.MovesData len :=
  fun hmove => UInt64.not_lt.mpr hmove.2 h.1

/-- **The path that moves data to the front always fails its `assert`.**
`readerIndex_` is zeroed before it is subtracted from `writerIndex_`, so the number
of readable bytes grows by the bytes already retrieved, of which there is at least
one on this path. -/
theorem append_of_movesData (hwf : b.Wf) (hmove : b.MovesData len) :
    b.append data len = .error (.assertion .makeSpace) := by
  obtain ⟨hless, hroom⟩ := hmove
  have hr := hwf.toNat_reader_le
  have hw := hwf.toNat_writer_le
  have hreader : 0 < b.readerIndex_.toNat := by
    rw [UInt64.lt_iff_toNat_lt, hwf.toNat_writeableBytes] at hless
    rw [UInt64.le_iff_toNat_le, hwf.toNat_room] at hroom
    omega
  have hsrc : (b.writerIndex_ - b.readerIndex_).toNat ≤ b.peek.length := by
    rw [← readableBytes, ← hwf.length_unread, unread, List.length_take]
    exact Nat.min_le_right _ _
  have hdst : (0 : UInt64).toNat + (b.writerIndex_ - b.readerIndex_).toNat ≤
      b.buffer_.bytes.length := by
    rw [← readableBytes, hwf.toNat_readableBytes, UInt64.toNat_zero]
    omega
  obtain ⟨v, hv, -⟩ := CharVector.store_of_fits hsrc hdst
  have hmax := b.buffer_.length_le
  have hcopy : b.buffer_.copy 0 b.peek (b.writerIndex_ - b.readerIndex_) = .ok v :=
    (CharVector.copy_of_le (by omega)).trans hv
  have hassert : ¬b.readableBytes = readableBytes ⟨v, 0, b.writerIndex_ - 0⟩ := by
    intro heq
    have hnat : b.readableBytes.toNat = (b.writerIndex_ - 0 - 0).toNat :=
      congrArg UInt64.toNat heq
    rw [hwf.toNat_readableBytes, UInt64.sub_zero, UInt64.sub_zero] at hnat
    omega
  rw [append, ensureWriableBytes_of_not_fits hless, makeSpace_of_room hroom, hcopy,
    AbortingRun.ok_bind, assertThat_of_not hassert]
  rfl

/-- **The outcomes of `append`**, for a length that is that of bytes in memory. -/
theorem Holds.append_cases (h : b.Holds q) (hdata : len.toNat ≤ data.length)
    (hlen : len.toNat ≤ ptrdiffMax) :
    (b.MovesData len ∧ b.append data len = .error (.assertion .makeSpace)) ∨
    (b.Outgrows len ∧ b.append data len = .error .lengthError) ∨
    (¬b.MovesData len ∧ ¬b.Outgrows len ∧
      ∃ b', b.append data len = .ok b' ∧ b'.Holds (q ++ data.take len.toNat) ∧
        b'.readerIndex_ = b.readerIndex_) := by
  by_cases hfits : len ≤ b.writeableBytes
  · obtain ⟨b', hb', hholds, hreader, -⟩ := h.append_of_fits hdata hfits
    refine Or.inr (Or.inr ⟨?_, ?_, b', hb', hholds, hreader⟩)
    · intro hmove
      exact UInt64.not_lt.mpr hfits hmove.1
    · intro hgrow
      exact UInt64.not_lt.mpr hfits (h.wf.writeableBytes_lt hgrow.1)
  · by_cases hroom : b.writeableBytes + b.prependableBytes < len
    · have hnot : ¬b.MovesData len := fun hmove => UInt64.not_lt.mpr hmove.2 hroom
      by_cases hsize : b.writerIndex_.toNat + len.toNat ≤ ptrdiffMax
      · obtain ⟨b', hb', hholds, hreader, -⟩ := h.append_of_grows hdata hroom hsize
        exact Or.inr (Or.inr ⟨hnot, fun hgrow => absurd hgrow.2 (by omega), b', hb', hholds,
          hreader⟩)
      · have hgrow : b.Outgrows len := ⟨hroom, by omega⟩
        exact Or.inr (Or.inl ⟨hgrow, append_of_outgrows h.wf hgrow hlen⟩)
    · have hmove : b.MovesData len := ⟨UInt64.not_le.mp hfits, UInt64.not_lt.mp hroom⟩
      exact Or.inl ⟨hmove, append_of_movesData h.wf hmove⟩

/-- A negative length makes `ensureWriableBytes` shrink the vector: `writerIndex_ + len`
wraps, and the new size is so far behind the writer index that what is left to write wraps
to `len` again. -/
theorem ensureWriableBytes_of_negative (hwf : b.Wf) (hlen : ptrdiffMax < len.toNat) :
    (b.writerIndex_.toNat + len.toNat < 2 ^ 64 ∧
      b.ensureWriableBytes len = .error .lengthError) ∨
    (2 ^ 64 ≤ b.writerIndex_.toNat + len.toNat ∧
      ∃ v, b.ensureWriableBytes len = .ok ⟨v, b.readerIndex_, b.writerIndex_⟩ ∧
        v.bytes = b.buffer_.bytes.take (b.writerIndex_ + len).toNat) := by
  have hr := hwf.toNat_reader_le
  have hw := hwf.toNat_writer_le
  have hmax := b.buffer_.length_le
  have hlt := len.toNat_lt
  have hroom : b.writeableBytes + b.prependableBytes < len := by
    rw [UInt64.lt_iff_toNat_lt, hwf.toNat_room]
    omega
  have hspace : b.makeSpace len =
      b.buffer_.resize (b.writerIndex_ + len) >>= fun v =>
        .ok ⟨v, b.readerIndex_, b.writerIndex_⟩ := by
    rw [makeSpace, if_pos hroom]
    rfl
  rw [ensureWriableBytes_of_not_fits (hwf.writeableBytes_lt hroom), hspace]
  unfold ptrdiffMax at hlen hmax
  by_cases hwrap : b.writerIndex_.toNat + len.toNat < 2 ^ 64
  · refine Or.inl ⟨hwrap, ?_⟩
    have hsum : ptrdiffMax < (b.writerIndex_ + len).toNat := by
      unfold ptrdiffMax
      rw [UInt64.toNat_add, Nat.mod_eq_of_lt hwrap]
      omega
    rw [CharVector.resize_of_gt hsum]
    rfl
  · have hsum : (b.writerIndex_ + len).toNat = b.writerIndex_.toNat + len.toNat - 2 ^ 64 := by
      rw [UInt64.toNat_add]
      omega
    obtain ⟨v, hv, hbytes⟩ := CharVector.resize_of_le (v := b.buffer_)
      (n := b.writerIndex_ + len) (by unfold ptrdiffMax; omega)
    rw [Nat.sub_eq_zero_of_le (by omega), List.replicate_zero, List.append_nil] at hbytes
    have hroom' : writeableBytes ⟨v, b.readerIndex_, b.writerIndex_⟩ = len := by
      have hsize : v.size = b.writerIndex_ + len := by
        rw [← UInt64.toNat_inj, CharVector.toNat_size, hbytes, List.length_take]
        omega
      rw [writeableBytes, hsize]
      grind
    refine Or.inr ⟨by omega, v, ?_, hbytes⟩
    rw [hv, AbortingRun.ok_bind, AbortingRun.ok_bind, hroom', assertThat_of (UInt64.le_refl len)]
    rfl

/-- **The outcomes of `append` for a negative length.**  The vector is asked for a size that
wraps below zero, and throws; or it shrinks, and the buffer loses as many of the bytes
appended last; and if there are not as many unread bytes, the writer index comes to lie in
front of the reader index, where nothing can be read any more. -/
theorem Holds.append_of_negative (h : b.Holds q) (data : List UInt8)
    (hlen : ptrdiffMax < len.toNat) :
    b.append data len = .error .lengthError ∨
    (2 ^ 64 - len.toNat ≤ q.length ∧ ∃ b', b.append data len = .ok b' ∧
      b'.Holds (q.take (q.length - (2 ^ 64 - len.toNat)))) ∨
    (q.length < 2 ^ 64 - len.toNat ∧ ∃ b', b.append data len = .ok b' ∧ b'.peek = [] ∧
      ptrdiffMax < b'.readableBytes.toNat) := by
  have hr := h.wf.toNat_reader_le
  have hw := h.wf.toNat_writer_le
  have hmax := b.buffer_.length_le
  have hlt := len.toNat_lt
  have hq := h.length_eq_sub
  rcases ensureWriableBytes_of_negative h.wf hlen with ⟨-, herr⟩ | ⟨hwrap, v, hok, hbytes⟩
  · exact Or.inl (by rw [append, herr, AbortingRun.error_bind])
  · have hwriter : (b.writerIndex_ + len).toNat = b.writerIndex_.toNat + len.toNat - 2 ^ 64 := by
      rw [UInt64.toNat_add]
      omega
    have hlength : v.bytes.length = (b.writerIndex_ + len).toNat := by
      rw [hbytes, List.length_take]
      omega
    have happend : b.append data len =
        .ok ⟨v, b.readerIndex_, b.writerIndex_ + len⟩ := by
      rw [append, hok, AbortingRun.ok_bind, CharVector.copy, if_pos hlen]
      rfl
    unfold ptrdiffMax at hlen hmax
    by_cases hshort : q.length < 2 ^ 64 - len.toNat
    · refine Or.inr (Or.inr ⟨hshort, _, happend, ?_, ?_⟩)
      · show v.bytes.drop b.readerIndex_.toNat = []
        exact List.drop_eq_nil_of_le (by omega)
      · show ptrdiffMax < (b.writerIndex_ + len - b.readerIndex_).toNat
        unfold ptrdiffMax
        rw [UInt64.toNat_sub, hwriter]
        omega
    · refine Or.inr (Or.inl ⟨by omega, _, happend, ?_⟩)
      refine Holds.of_take_writer (b.buffer_.bytes.take b.readerIndex_.toNat) hlength.ge ?_ ?_
      · rw [List.length_take, Nat.min_eq_left (hr.trans hw)]
      · have hback : (b.writerIndex_ + len).toNat =
            (b.buffer_.bytes.take b.readerIndex_.toNat).length +
              (q.length - (2 ^ 64 - len.toNat)) := by
          rw [List.length_take]
          omega
        have hfront : v.bytes =
            (b.buffer_.bytes.take b.writerIndex_.toNat).take (b.writerIndex_ + len).toNat := by
          rw [hbytes, List.take_take, Nat.min_eq_left (by omega)]
        show v.bytes.take (b.writerIndex_ + len).toNat = _
        rw [List.take_of_length_le hlength.le, hfront, h.take_writer, hback,
          List.take_length_add_append]

/-- A buffer nothing was ever retrieved from has no room in front: it only stores in
place or grows. -/
theorem Holds.append_of_reader_zero (h : b.Holds q) (hreader : b.readerIndex_ = 0)
    (hdata : len.toNat ≤ data.length) (hlen : len.toNat ≤ ptrdiffMax) :
    (ptrdiffMax < q.length + len.toNat ∧ b.append data len = .error .lengthError) ∨
      ∃ b', b.append data len = .ok b' ∧ b'.Holds (q ++ data.take len.toNat) ∧
        b'.readerIndex_ = 0 := by
  have hwriter : q.length = b.writerIndex_.toNat := by
    rw [h.length_eq_sub, hreader, UInt64.toNat_zero, Nat.sub_zero]
  rcases h.append_cases hdata hlen with ⟨hmove, -⟩ | ⟨hgrow, herr⟩ | ⟨-, -, b', hb', hq, hr⟩
  · obtain ⟨hless, hroom⟩ := hmove
    rw [prependableBytes, hreader, UInt64.add_zero] at hroom
    exact absurd hless (UInt64.not_lt.mpr hroom)
  · exact Or.inl ⟨hwriter ▸ hgrow.2, herr⟩
  · exact Or.inr ⟨b', hb', hq, hr.trans hreader⟩

/-- Likewise for `writeUInt32`. -/
theorem Holds.writeUInt32_of_reader_zero (h : b.Holds q) (hreader : b.readerIndex_ = 0)
    (hn : UInt32) :
    (ptrdiffMax < q.length + 4 ∧ b.writeUInt32 hn = .error .lengthError) ∨
      ∃ b', b.writeUInt32 hn = .ok b' ∧ b'.Holds (q ++ uint32Bytes hn) ∧
        b'.readerIndex_ = 0 := by
  have hdata : (4 : UInt64).toNat = (uint32Bytes hn).length := (length_uint32Bytes hn).symm
  have happend := h.append_of_reader_zero hreader hdata.le (by decide)
  rwa [hdata, List.take_length, length_uint32Bytes] at happend

end Append

end Buffer

end LearnUv
