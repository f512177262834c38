import LearnUv.Chat.Codec
import LearnUv.Library.IncrementalDecoder

/-!
# What `Codec` computes

On byte strings, the loop of `onMessage` is an incremental decoder: it takes a
message off the front when there is more than a header, the header announces at most
`kMaxMessageSize` bytes, and they are all there.  `Codec.decoder` is that decoder and
`Codec.frame` the rendering it recognises; `onMessage_spec` says that the loop on the
codec's buffer drains the byte string the buffer holds.

The comparison with `>` in the loop condition shows in `nextMessage_frame`: the frame
of the empty message is a header and nothing else, and is taken off only when at least
one more byte is there.

The loop retrieves what it has handed over before it looks for the next message, so one
turn of it (`onMessageStep`) leaves a codec whose buffer holds the rest of the byte string,
and the induction over the loop is the one over `drain`.  What the loop returns with is
settled with it: it stops at a byte string from which the decoder takes nothing more.

A read that has failed appends a negative number of bytes.  Where the buffer survives that,
it has taken bytes back that were not retrieved, and `onMessage` is called again; the rest
holds no message then either, because bytes were taken from its end (`Stuck.take`).
-/

namespace LearnUv

namespace Codec

/-! ## Frames -/

/-- The largest message length the decoder accepts. -/
def maxLength : ℕ := 4096

/-- The frame of a message: its length as a four-byte big-endian number, and its
bytes. -/
def frame (msg : List UInt8) : List UInt8 :=
  uint32Bytes (UInt32.ofNat msg.length) ++ msg

/-- The concatenated frames of a list of messages. -/
def frames (msgs : List (List UInt8)) : List UInt8 := (msgs.map frame).flatten

/-- The length a header announces. -/
def announced (xs : List UInt8) : ℕ := BigEndian.value (xs.take 4)

@[simp] theorem length_frame (msg : List UInt8) : (frame msg).length = 4 + msg.length := by
  rw [frame, List.length_append, length_uint32Bytes]

@[simp] theorem frames_nil : frames [] = [] := rfl

@[simp] theorem frames_cons (msg : List UInt8) (msgs : List (List UInt8)) :
    frames (msg :: msgs) = frame msg ++ frames msgs := rfl

@[simp] theorem frames_append (first second : List (List UInt8)) :
    frames (first ++ second) = frames first ++ frames second := by
  simp [frames]

/-- A frame begins with the length of its message -/
theorem take_four_frame (msg rest : List UInt8) :
    (frame msg ++ rest).take 4 = uint32Bytes (UInt32.ofNat msg.length) := by
  rw [frame, List.append_assoc, ← length_uint32Bytes (UInt32.ofNat msg.length), List.take_left]

/-- and goes on with the message. -/
theorem drop_four_frame (msg rest : List UInt8) :
    (frame msg ++ rest).drop 4 = msg ++ rest := by
  rw [frame, List.append_assoc, ← length_uint32Bytes (UInt32.ofNat msg.length), List.drop_left]

/-- A length below `2 ^ 32` fits the header. -/
theorem toNat_ofNat_length {msg : List UInt8} (h : msg.length < 2 ^ 32) :
    (UInt32.ofNat msg.length).toNat = msg.length := by
  rw [UInt32.toNat_ofNat', Nat.mod_eq_of_lt h]

/-- A frame announces the length of its message. -/
theorem announced_frame {msg : List UInt8} (h : msg.length < 2 ^ 32) (rest : List UInt8) :
    announced (frame msg ++ rest) = msg.length := by
  rw [announced, take_four_frame, uint32Bytes, BigEndian.value_digits 4 _ (UInt32.toNat_lt _),
    toNat_ofNat_length h]

/-- What a header announces does not depend on what follows. -/
theorem announced_append {xs : List UInt8} (h : 4 ≤ xs.length) (ys : List UInt8) :
    announced (xs ++ ys) = announced xs := by
  rw [announced, List.take_append_of_le_length h, announced]

/-- Different messages have different frames. -/
theorem frame_injective : Function.Injective frame := by
  intro c m h
  have hdrop := congrArg (List.drop 4) h
  have hc := drop_four_frame c []
  have hm := drop_four_frame m []
  rw [List.append_nil, List.append_nil] at hc hm
  rwa [hc, hm] at hdrop

/-- The first bytes of a stream of frames are the frame of a message exactly when the
first frame is. -/
theorem take_frames_eq_frame_iff {c m : List UInt8} {cs : List (List UInt8)}
    (hc : c.length < 2 ^ 32) (hm : m.length < 2 ^ 32) :
    (frames (c :: cs)).take (frame m).length = frame m ↔ c = m := by
  constructor
  · intro htake
    have hsplit := List.take_append_drop (frame m).length (frames (c :: cs))
    rw [htake, frames_cons] at hsplit
    have hlength : m.length = c.length := by
      rw [← announced_frame hm, hsplit, announced_frame hc]
    have hframe : (frame m).length = (frame c).length := by
      rw [length_frame, length_frame, hlength]
    exact frame_injective (List.append_inj_left hsplit hframe).symm
  · rintro rfl
    rw [frames_cons, List.take_left]

theorem announced_lt (xs : List UInt8) : announced xs < 2 ^ 32 := by
  have hlt := BigEndian.value_lt (xs.take 4)
  have hle : 256 ^ (xs.take 4).length ≤ 256 ^ 4 :=
    Nat.pow_le_pow_right (by omega) (by simp)
  rw [announced]
  omega

/-- A byte string that starts with a header starts with the frame of what the header
announces, when all of that is there. -/
theorem frame_of_announced {xs : List UInt8} (h : announced xs + 4 ≤ xs.length) :
    xs = frame ((xs.drop 4).take (announced xs)) ++ xs.drop (4 + announced xs) := by
  have hmsg : ((xs.drop 4).take (announced xs)).length = announced xs := by
    rw [List.length_take, List.length_drop]
    omega
  have hheader : uint32Bytes (UInt32.ofNat (announced xs)) = xs.take 4 := by
    exact uint32Bytes_ntohl (by rw [List.length_take]; omega)
  rw [frame, hmsg, hheader, ← List.drop_drop, List.append_assoc, List.take_append_drop,
    List.take_append_drop]

/-! ## The decoder -/

/-- One iteration of the loop of `onMessage`, on byte strings. -/
def nextMessage (xs : List UInt8) : Option (List UInt8 × List UInt8) :=
  if 4 < xs.length ∧ announced xs ≤ maxLength ∧ announced xs + 4 ≤ xs.length then
    some ((xs.drop 4).take (announced xs), xs.drop (4 + announced xs))
  else none

/-- **The decoder takes a frame off the front** of a message that is not too long, when a
byte more than the header is there. -/
theorem nextMessage_eq_some {xs msg rest : List UInt8} :
    nextMessage xs = some (msg, rest) ↔
      4 < xs.length ∧ msg.length ≤ maxLength ∧ xs = frame msg ++ rest := by
  constructor
  · intro h
    unfold nextMessage at h
    split at h
    · next hcond =>
        obtain ⟨hlen, hmax, hall⟩ := hcond
        cases h
        refine ⟨hlen, ?_, frame_of_announced hall⟩
        exact (List.length_take_le _ _).trans hmax
    · cases h
  · rintro ⟨hlen, hmax, rfl⟩
    unfold maxLength at hmax
    have hann : announced (frame msg ++ rest) = msg.length := announced_frame (by omega) rest
    have hdrop : (frame msg ++ rest).drop (4 + msg.length) = rest := by
      rw [← length_frame, List.drop_left]
    have hall : msg.length + 4 ≤ (frame msg ++ rest).length := by
      rw [List.length_append, length_frame]
      omega
    rw [nextMessage, hann, if_pos ⟨hlen, hmax, hall⟩, drop_four_frame, List.take_left, hdrop]

/-- The loop of `onMessage` as an incremental decoder. -/
def decoder : IncrementalDecoder UInt8 (List UInt8) where
  next := nextMessage
  length_lt h := by
    obtain ⟨-, -, rfl⟩ := nextMessage_eq_some.mp h
    rw [List.length_append, length_frame]
    omega
  next_append ys h := by
    obtain ⟨hlen, hmax, rfl⟩ := nextMessage_eq_some.mp h
    refine nextMessage_eq_some.mpr ⟨?_, hmax, List.append_assoc _ _ _⟩
    rw [List.length_append]
    omega

/-- What the decoder takes off was a frame. -/
theorem decoder_recognises : decoder.Recognises frame :=
  fun h => (nextMessage_eq_some.mp h).2.2

/-- A frame is taken off the front of what follows it, except that the frame of the
empty message needs something to follow it. -/
theorem nextMessage_frame {msg rest : List UInt8} (hmax : msg.length ≤ maxLength)
    (h : msg ≠ [] ∨ rest ≠ []) : nextMessage (frame msg ++ rest) = some (msg, rest) := by
  refine nextMessage_eq_some.mpr ⟨?_, hmax, rfl⟩
  have hpos : 0 < msg.length ∨ 0 < rest.length :=
    h.imp List.length_pos_of_ne_nil List.length_pos_of_ne_nil
  rw [List.length_append, length_frame]
  omega

/-- What the loop leaves behind: at most a header, or a header that announces too
much, or a header followed by less than it announces. -/
def Stuck (xs : List UInt8) : Prop :=
  xs.length ≤ 4 ∨ maxLength < announced xs ∨ xs.length < 4 + announced xs

/-- The decoder takes nothing off exactly where it is stuck. -/
theorem nextMessage_eq_none {xs : List UInt8} : nextMessage xs = none ↔ Stuck xs := by
  unfold nextMessage Stuck
  split <;> simp <;> omega

/-- The beginning of what is left behind would be left behind as well. -/
theorem Stuck.take {xs : List UInt8} (h : Stuck xs) (k : ℕ) : Stuck (xs.take k) := by
  have hlen : (xs.take k).length ≤ xs.length := List.length_take_le' ..
  unfold Stuck at h ⊢
  by_cases hfour : 4 ≤ (xs.take k).length
  · have hsame := announced_append hfour (xs.drop k)
    rw [List.take_append_drop] at hsame
    omega
  · omega

/-- The loop ends where the decoder is stuck. -/
theorem stuck_drain (xs : List UInt8) : Stuck (decoder.drain xs).2 :=
  nextMessage_eq_none.mp (decoder.next_drain xs)

/-- Every message that is delivered is at most `kMaxMessageSize` long. -/
theorem length_le_of_mem_drain {xs msg : List UInt8} (h : msg ∈ (decoder.drain xs).1) :
    msg.length ≤ maxLength := by
  induction xs using IncrementalDecoder.drain_induction (D := decoder) with
  | stuck xs hnone =>
      rw [IncrementalDecoder.drain_of_none hnone] at h
      cases h
  | message xs m rest hsome ih =>
      rw [IncrementalDecoder.drain_of_some hsome] at h
      rcases List.mem_cons.mp h with rfl | h
      · exact (nextMessage_eq_some.mp hsome).2.1
      · exact ih h

/-! ## The loop refines the decoder -/

/-- The two comparisons that reject a header, on the `int` the length was converted
to, reject exactly the lengths above `kMaxMessageSize`: those from `2 ^ 31` on are
negative as `int`. -/
theorem rejects_iff (word : UInt32) :
    kMaxMessageSize < word.toInt32 ∨ word.toInt32 < 0 ↔ maxLength < word.toNat := by
  have hword := word.toNat_lt
  have hmax : kMaxMessageSize.toInt = 4096 := rfl
  have hzero : (0 : Int32).toInt = 0 := rfl
  rw [Int32.lt_iff_toInt_lt, Int32.lt_iff_toInt_lt, toInt_toInt32, hmax, hzero]
  unfold maxLength
  split <;> omega

/-- An accepted length survives the conversions `uint32_t` to `int` to `size_t`. -/
theorem toNat_sizeOfInt_toInt32 {word : UInt32} (h : word.toNat ≤ maxLength) :
    (sizeOfInt word.toInt32).toNat = word.toNat := by
  unfold maxLength at h
  have hint : word.toInt32.toInt = word.toNat := by
    rw [toInt_toInt32, if_pos (by omega)]
  rw [toNat_sizeOfInt (by omega), hint, Int.toNat_natCast]

/-- And so does the length of its frame. -/
theorem toNat_sizeOfInt_add_kHeaderLen {word : UInt32} (h : word.toNat ≤ maxLength) :
    (sizeOfInt (word.toInt32 + kHeaderLen)).toNat = word.toNat + 4 := by
  unfold maxLength at h
  have hheader : kHeaderLen.toInt = 4 := rfl
  have hint : (word.toInt32 + kHeaderLen).toInt = word.toNat + 4 := by
    rw [Int32.toInt_add, toInt_toInt32, if_pos (by omega), hheader, Int.bmod_eq_of_le]
    · omega
    · omega
  rw [toNat_sizeOfInt (by omega), hint]
  omega

/-- The loop goes on exactly while there is more than a header. -/
theorem kHeaderLen_lt_iff {b : Buffer} {q : List UInt8} (h : b.Holds q) :
    sizeOfInt kHeaderLen < b.readableBytes ↔ 4 < q.length := by
  rw [UInt64.lt_iff_toNat_lt, ← h.length_eq]
  rfl

/-- The body of the loop, once the length has been read. -/
theorem onMessageStep_of_header {b : Buffer} {q : List UInt8} (h : b.Holds q)
    (hmore : 4 < q.length) :
    ∃ word : UInt32, word.toNat = announced q ∧
      onMessageStep b =
        if kMaxMessageSize < word.toInt32 ∨ word.toInt32 < 0 then .ok none
        else if sizeOfInt (word.toInt32 + kHeaderLen) ≤ b.readableBytes then
          b.retrieveUInt32 >>= fun b₁ =>
            b₁.retrieveAsString (sizeOfInt word.toInt32) >>= fun p => .ok (some p)
        else .ok none := by
  refine ⟨ntohl (q.take 4), ?_, ?_⟩
  · rw [ntohl, UInt32.toNat_ofNat', announced]
    exact Nat.mod_eq_of_lt (announced_lt q)
  · rw [onMessageStep, if_pos ((kHeaderLen_lt_iff h).mpr hmore), h.peekUInt32 hmore.le]
    rfl

/-- **One iteration of the loop is one step of the decoder**, on a buffer that holds
the byte string; none of its `assert`s fails. -/
theorem onMessageStep_spec {b : Buffer} {q : List UInt8} (h : b.Holds q) :
    (nextMessage q = none ∧ onMessageStep b = .ok none) ∨
      ∃ msg rest b', nextMessage q = some (msg, rest) ∧
        onMessageStep b = .ok (some (msg, b')) ∧ b'.Holds rest := by
  by_cases hmore : 4 < q.length
  · obtain ⟨word, hword, hstep⟩ := onMessageStep_of_header h hmore
    by_cases hreject : kMaxMessageSize < word.toInt32 ∨ word.toInt32 < 0
    · refine Or.inl ⟨?_, by rw [hstep, if_pos hreject]⟩
      rw [rejects_iff, hword] at hreject
      exact nextMessage_eq_none.mpr (Or.inr (Or.inl hreject))
    · have haccept : word.toNat ≤ maxLength := by
        rw [rejects_iff] at hreject
        omega
      have hall : sizeOfInt (word.toInt32 + kHeaderLen) ≤ b.readableBytes ↔
          announced q + 4 ≤ q.length := by
        rw [UInt64.le_iff_toNat_le, toNat_sizeOfInt_add_kHeaderLen haccept, ← h.length_eq,
          hword]
      rw [if_neg hreject] at hstep
      by_cases hcomplete : announced q + 4 ≤ q.length
      · obtain ⟨b₁, hb₁, hholds₁⟩ := h.retrieveUInt32 hmore.le
        have hlen : (sizeOfInt word.toInt32).toNat = announced q :=
          (toNat_sizeOfInt_toInt32 haccept).trans hword
        have hpayload : (sizeOfInt word.toInt32).toNat ≤ (q.drop 4).length := by
          rw [hlen, List.length_drop]
          omega
        obtain ⟨b₂, hb₂, hholds₂⟩ := hholds₁.retrieveAsString hpayload
        rw [hlen] at hb₂
        rw [hlen, List.drop_drop] at hholds₂
        refine Or.inr ⟨(q.drop 4).take (announced q), _, b₂, ?_, ?_, hholds₂⟩
        · rw [nextMessage, if_pos ⟨hmore, hword ▸ haccept, hcomplete⟩]
        · rw [hstep, if_pos (hall.mpr hcomplete), hb₁, AbortingRun.ok_bind, hb₂]
          rfl
      · refine Or.inl ⟨nextMessage_eq_none.mpr (Or.inr (Or.inr (by omega))), ?_⟩
        rw [hstep, if_neg (fun hle => hcomplete (hall.mp hle))]
  · refine Or.inl ⟨nextMessage_eq_none.mpr (Or.inl (by omega)), ?_⟩
    rw [onMessageStep, if_neg (fun hlt => hmore ((kHeaderLen_lt_iff h).mp hlt))]
    rfl

/-- Hand messages to a callback one after the other. -/
def deliverAll {σ : Type} (cb_ : List UInt8 → σ → Exec σ) (s : σ)
    (msgs : List (List UInt8)) : Exec σ :=
  AbortingRun.run (fun s msg => cb_ msg s) s msgs

/-- **The loop drains the buffer.**  Whatever the callback is, it is given the messages
that the decoder finds in the byte string the buffer holds, in their order, and the
buffer is left with what the decoder leaves. -/
theorem onMessage_spec {b : Buffer} {q : List UInt8} (h : b.Holds q) :
    ∃ b', b'.Holds (decoder.drain q).2 ∧
      ∀ {σ : Type} (cb_ : List UInt8 → σ → Exec σ) (s : σ),
        onMessage cb_ b s =
          deliverAll cb_ s (decoder.drain q).1 >>= fun s => .ok (b', s) := by
  induction q using IncrementalDecoder.drain_induction (D := decoder) generalizing b with
  | stuck q hnone =>
      refine ⟨b, by rwa [IncrementalDecoder.drain_of_none hnone], fun cb_ s => ?_⟩
      rcases onMessageStep_spec h with ⟨-, hstep⟩ | ⟨msg, rest, b', hsome, -⟩
      · rw [onMessage, IncrementalDecoder.drain_of_none hnone]
        split
        · next h' => rw [hstep] at h'; cases h'
        · rfl
        · next h' => rw [hstep] at h'; cases h'
      · exact absurd (hsome.symm.trans hnone) (by simp)
  | message q msg rest hsome ih =>
      rcases onMessageStep_spec h with ⟨hnone, -⟩ | ⟨msg', rest', b₁, hsome', hstep, hholds₁⟩
      · exact absurd (hsome.symm.trans hnone) (by simp)
      · cases hsome'.symm.trans hsome
        obtain ⟨b', hholds', hcb⟩ := ih hholds₁
        refine ⟨b', by rwa [IncrementalDecoder.drain_of_some hsome], fun cb_ s => ?_⟩
        have hunfold : onMessage cb_ b s =
            cb_ msg s >>= fun s => onMessage cb_ b₁ s := by
          rw [onMessage]
          split
          · next h' => rw [hstep] at h'; cases h'
          · next h' => rw [hstep] at h'; cases h'
          · next h' => rw [hstep] at h'; cases h'; rfl
        rw [hunfold, IncrementalDecoder.drain_of_some hsome, deliverAll, AbortingRun.run_cons]
        cases cb_ msg s with
        | error abort => rfl
        | ok t => exact hcb cb_ t

/-- With nothing behind the reader index and a count of readable bytes that has wrapped, the
header is read outside the storage. -/
theorem onMessageStep_of_peek_nil {b : Buffer} (hpeek : b.peek = [])
    (hreadable : ptrdiffMax < b.readableBytes.toNat) :
    onMessageStep b = .error .outOfBounds := by
  unfold ptrdiffMax at hreadable
  have hmore : sizeOfInt kHeaderLen < b.readableBytes := by
    have hheader : (sizeOfInt kHeaderLen).toNat = 4 := rfl
    rw [UInt64.lt_iff_toNat_lt, hheader]
    omega
  have hfour : 4 ≤ b.readableBytes := UInt64.le_of_lt hmore
  rw [onMessageStep, if_pos hmore, Buffer.peekUInt32, assertThat_of hfour, hpeek]
  rfl

/-- So the loop does not return. -/
theorem onMessage_of_step_error {σ : Type} {b : Buffer} {abort : Abort}
    (h : onMessageStep b = .error abort) (cb_ : List UInt8 → σ → Exec σ) (s : σ) :
    onMessage cb_ b s = .error abort := by
  rw [onMessage]
  split
  · next h' =>
      cases h'.symm.trans h
      rfl
  · next h' => cases h'.symm.trans h
  · next h' => cases h'.symm.trans h

/-- **`on_uv_read` feeds the decoder**: unless its `append` aborts, the callback is
given the messages of what the buffer held followed by what was read. -/
theorem onUvRead_spec {codec : Codec} {q : List UInt8} (h : codec.buffer.Holds q)
    (rd : Read) :
    (∃ abort, codec.buffer.append rd.base rd.nread = .error abort ∧
      ∀ {σ : Type} (cb_ : List UInt8 → σ → Exec σ) (s : σ),
        onUvRead cb_ codec rd.nread rd.base s = .error abort) ∨
    ∃ codec', codec'.buffer.Holds (decoder.drain (q ++ rd.bytes)).2 ∧
      ∀ {σ : Type} (cb_ : List UInt8 → σ → Exec σ) (s : σ),
        onUvRead cb_ codec rd.nread rd.base s =
          deliverAll cb_ s (decoder.drain (q ++ rd.bytes)).1 >>= fun s => .ok (codec', s) := by
  cases happend : codec.buffer.append rd.base rd.nread with
  | error abort =>
      refine Or.inl ⟨abort, rfl, fun cb_ s => ?_⟩
      rw [onUvRead, happend, AbortingRun.error_bind]
  | ok b =>
      have hb : b.Holds (q ++ rd.bytes) := by
        rcases h.append_cases rd.nread_le rd.nread_le_max with
          ⟨-, herr⟩ | ⟨-, herr⟩ | ⟨-, -, b', hb', hholds, -⟩
        · rw [happend] at herr; cases herr
        · rw [happend] at herr; cases herr
        · rw [happend] at hb'; cases hb'; exact hholds
      obtain ⟨b', hholds', hcb⟩ := onMessage_spec hb
      refine Or.inr ⟨⟨b'⟩, hholds', fun cb_ s => ?_⟩
      rw [onUvRead, happend, AbortingRun.ok_bind, hcb]
      cases deliverAll cb_ s (decoder.drain (q ++ rd.bytes)).1 with
      | error abort => rfl
      | ok t => rfl

/-! ## `encode` -/

/-- The conversions of `encode` keep a length that fits an `int` with its header: the
`int` of `strlen`, the `uint32_t` written, the `size_t` appended and the `int`
returned. -/
theorem length_conversions {n : ℕ} (h : n + 4 < 2 ^ 31) :
    (intOfSize (UInt64.ofNat n)).toUInt32 = UInt32.ofNat n ∧
      (sizeOfInt (intOfSize (UInt64.ofNat n))).toNat = n ∧
      (intOfSize (UInt64.ofNat n) + kHeaderLen).toInt = n + 4 := by
  have hsize : (UInt64.ofNat n).toNat = n := by
    rw [UInt64.toNat_ofNat', Nat.mod_eq_of_lt (by omega)]
  have hint : (intOfSize (UInt64.ofNat n)).toInt = n := by
    rw [toInt_intOfSize (by omega), hsize]
  refine ⟨?_, ?_, ?_⟩
  · rw [intOfSize, UInt32.toUInt32_toInt32, UInt64.toUInt32_ofNat']
  · rw [toNat_sizeOfInt (by omega), hint, Int.toNat_natCast]
  · have hheader : kHeaderLen.toInt = 4 := rfl
    rw [Int32.toInt_add, hint, hheader, Int.bmod_eq_of_le (by omega) (by omega)]

/-- **`encode` appends the frame of the C string it is given** to a buffer nothing was
ever retrieved from, and returns the length of that frame; it fails only when the
buffer cannot be that long. -/
theorem encode_spec {b : Buffer} {q mem : List UInt8} (h : b.Holds q)
    (hreader : b.readerIndex_ = 0) (hnul : 0 ∈ mem)
    (hlen : (cString mem).length + 4 < 2 ^ 31) :
    (ptrdiffMax < q.length + (frame (cString mem)).length ∧
      encode b mem = .error .lengthError) ∨
    ∃ n b', encode b mem = .ok (n, b') ∧ n.toInt = (frame (cString mem)).length ∧
      b'.Holds (q ++ frame (cString mem)) ∧ b'.readerIndex_ = 0 := by
  obtain ⟨hword, hback, hreturn⟩ := length_conversions hlen
  have hencode : encode b mem =
      b.writeUInt32 (UInt32.ofNat (cString mem).length) >>= fun b₁ =>
        b₁.append mem (sizeOfInt (intOfSize (UInt64.ofNat (cString mem).length))) >>= fun b₂ =>
          .ok (intOfSize (UInt64.ofNat (cString mem).length) + kHeaderLen, b₂) := by
    rw [encode, strlen, if_pos hnul, AbortingRun.ok_bind, ← hword]
    rfl
  generalize intOfSize (UInt64.ofNat (cString mem).length) = len at *
  rw [hencode]
  rcases h.writeUInt32_of_reader_zero hreader (UInt32.ofNat (cString mem).length) with
    ⟨hmax, herr⟩ | ⟨b₁, hb₁, hholds₁, hreader₁⟩
  · refine Or.inl ⟨?_, by rw [herr, AbortingRun.error_bind]⟩
    rw [length_frame]
    omega
  · have hmem : (sizeOfInt len).toNat ≤ mem.length := hback ▸ length_cString_le mem
    have hmax : (sizeOfInt len).toNat ≤ ptrdiffMax := by
      rw [hback]
      unfold ptrdiffMax
      omega
    rcases hholds₁.append_of_reader_zero hreader₁ hmem hmax with
      ⟨hmax, herr⟩ | ⟨b₂, hb₂, hholds₂, hreader₂⟩
    · refine Or.inl ⟨?_, by rw [hb₁, AbortingRun.ok_bind, herr, AbortingRun.error_bind]⟩
      rw [List.length_append, length_uint32Bytes, hback] at hmax
      rw [length_frame]
      omega
    · rw [hback, take_length_cString, List.append_assoc, ← frame] at hholds₂
      refine Or.inr ⟨len + kHeaderLen, b₂, ?_, ?_, hholds₂, hreader₂⟩
      · rw [hb₁, AbortingRun.ok_bind, hb₂, AbortingRun.ok_bind]
      · rw [hreturn, length_frame]
        omega

/-- What can be sent from the front of a buffer nothing was ever retrieved from, after
`encode`: as many bytes as the frame has, of everything that was ever encoded. -/
theorem encode_peek {b : Buffer} {q mem : List UInt8} (h : b.Holds q)
    (hreader : b.readerIndex_ = 0) (hnul : 0 ∈ mem)
    (hlen : (cString mem).length + 4 < 2 ^ 31) :
    (ptrdiffMax < q.length + (frame (cString mem)).length ∧
      encode b mem = .error .lengthError) ∨
    ∃ n b', encode b mem = .ok (n, b') ∧
      (sizeOfInt n).toNat = (frame (cString mem)).length ∧
      b'.Holds (q ++ frame (cString mem)) ∧ b'.readerIndex_ = 0 ∧
      (sizeOfInt n).toNat ≤ b'.peek.length ∧
      b'.peek.take (sizeOfInt n).toNat =
        (q ++ frame (cString mem)).take (frame (cString mem)).length := by
  rcases encode_spec h hreader hnul hlen with
    hlong | ⟨n, b', hencode, hn, hholds, hreader'⟩
  · exact Or.inl hlong
  · have hsize : (sizeOfInt n).toNat = (frame (cString mem)).length := by
      rw [toNat_sizeOfInt (by omega), hn, Int.toNat_natCast]
    obtain ⟨hpeek, htake⟩ := hholds.take_peek (k := (sizeOfInt n).toNat)
      (by rw [hsize, List.length_append]; omega)
    rw [← hsize]
    exact Or.inr ⟨n, b', hencode, rfl, hholds, hreader', hpeek, htake⟩

/-- The bytes `encode` puts into a fresh `Buffer` for a `std::string` that is passed
with `c_str()`. -/
def encodeFrame (msg : List UInt8) : Exec (List UInt8) := do
  let (_, buffer) ← encode Buffer.ofDefault (cStr msg)
  return buffer.unread

/-- The frame of a message without NUL is what `encode` makes of it. -/
theorem encodeFrame_eq {msg : List UInt8} (hnul : 0 ∉ msg) (hmax : msg.length ≤ maxLength) :
    encodeFrame msg = .ok (frame msg) := by
  unfold maxLength at hmax
  have hcstr : cString (cStr msg) = msg := by rw [cString_cStr, cString_of_notMem hnul]
  rcases encode_spec Buffer.holds_ofDefault rfl
      (zero_mem_cStr msg) (by rw [hcstr]; omega) with ⟨hlong, -⟩ | ⟨n, b, hok, -, hholds, -⟩
  · rw [hcstr, length_frame, List.length_nil] at hlong
    unfold ptrdiffMax at hlong
    omega
  · rw [encodeFrame, hok, AbortingRun.ok_bind]
    rw [hcstr, List.nil_append] at hholds
    exact congrArg Except.ok hholds.unread_eq

end Codec

end LearnUv
