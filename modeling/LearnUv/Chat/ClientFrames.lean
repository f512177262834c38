import LearnUv.Chat.Client

/-!
# How long the client's frames are

A line can be as long as the read buffer of `common_alloc_buffer`, which has 65536 bytes;
`sendBuf` has 1024, and the decoder at the other end accepts messages of at most
`kMaxMessageSize` bytes.  Nothing between `on_read_stdin` and `memcpy` compares the three.

A call is inside when the frame it builds fits `sendBuf` and its peer does not reject it.  The
second follows from the first, because `sendBuf` is smaller than the largest message; so one
comparison of lengths decides, that of the line with what `sendBuf` has left behind a header.
The lines may be of any length below that of the read buffer, and contain anything but a NUL.

## Main Definitions

* `ContentRead` — a read of a line of any length, with a NUL behind it
* `Codec.Accepts` — the decoder does not reject a frame for its length
* `FrameInside` — the frame a call builds can be copied and is accepted
* `FramesInside` — so can that of every call of a run

## Main Results

* `readContent_copies` — `FrameInside` is about the copy that is made
* `framesInside_iff` — the frames are inside exactly when the lines are short
-/

namespace LearnUv

open Codec (frame frames length_frame maxLength)

/-- The peer's `onMessage` does not reject the frame as too long. -/
def Codec.Accepts (bytes : List UInt8) : Prop :=
  ¬(kMaxMessageSize < (ntohl (bytes.take 4)).toInt32 ∨ (ntohl (bytes.take 4)).toInt32 < 0)

/-- Of the frames it accepts those whose message is at most `kMaxMessageSize` long. -/
theorem Codec.accepts_frame_iff {msg : List UInt8} (h : msg.length < 2 ^ 32) :
    Accepts (frame msg) ↔ msg.length ≤ maxLength := by
  have hword : (ntohl ((frame msg).take 4)).toNat = msg.length := by
    have hannounced := announced_frame h []
    rw [List.append_nil] at hannounced
    rw [ntohl, UInt32.toNat_ofNat', ← announced, hannounced, Nat.mod_eq_of_lt h]
  rw [Accepts, rejects_iff, hword, Nat.not_lt]

namespace Client

/-! ## Reads of any length -/

/-- A read of the standard input: a line, and behind it, in the buffer of
`common_alloc_buffer`, a NUL and anything. -/
structure ContentRead where
  content : List UInt8
  tail : List UInt8
  notMem : 0 ∉ content
  /-- The buffer libuv asks for has 65536 bytes. -/
  buffer_le : (content ++ 0 :: tail).length ≤ 65536

namespace ContentRead

/-- The read buffer. -/
def base (rd : ContentRead) : List UInt8 := rd.content ++ 0 :: rd.tail

/-- The number of bytes read. -/
def nread (rd : ContentRead) : Int64 := Int64.ofNat rd.content.length

variable (rd : ContentRead)

/-- `strlen` finds the end of the line. -/
theorem cString_base : cString rd.base = rd.content := cString_append_zero rd.notMem

theorem zero_mem_base : 0 ∈ rd.base := List.mem_append_right _ List.mem_cons_self

theorem length_content_lt : rd.content.length < 65536 := by
  have hle := rd.buffer_le
  rw [List.length_append, List.length_cons] at hle
  omega

theorem not_neg : ¬rd.nread < 0 := by
  have hlt := rd.length_content_lt
  exact Int64.not_lt.mpr (Int64.zero_le_ofNat_of_lt (by omega))

end ContentRead

/-- One read. -/
def readContent (client : Client) (rd : ContentRead) : Exec Client :=
  client.onReadStdin rd.nread rd.base

/-- The frame the call builds: `sendRawContent` copies no more than `sendBuf` holds, and
what `encode` appended to `buffer` is accepted by the peer. -/
def FrameInside (client : Client) (rd : ContentRead) : Prop :=
  ∀ len buffer, Codec.encode client.buffer rd.base = .ok (len, buffer) →
    len.toInt64.toUInt64.toNat ≤ 1024 ∧
      Codec.Accepts (buffer.unread.drop client.buffer.unread.length)

/-- **The client never builds a frame it or the server cannot handle**, in the calls for
some reads, as far as they are made. -/
def FramesInside (reads : List ContentRead) : Prop :=
  AbortingRun.EachStep readContent FrameInside start reads

/-! ## One call -/

/-- `sendRawContent` returns exactly when `sendBuf` has room for what it is given. -/
theorem sendRawContent_returns_iff {sendBuf : CharArray 1024} {buf : List UInt8} {len : Int64}
    (hbuf : len.toUInt64.toNat ≤ buf.length) :
    (∃ p, sendRawContent sendBuf buf len = .ok p) ↔ len.toUInt64.toNat ≤ 1024 := by
  rw [sendRawContent]
  constructor
  · rintro ⟨p, hp⟩
    by_contra hlong
    rw [stage_of_not_fits (Nat.not_le.mp hlong)] at hp
    cases hp
  · intro hfits
    obtain ⟨sendBuf', hstage, -⟩ := stage_of_fits sendBuf (by decide) hbuf hfits
    exact ⟨_, hstage⟩

/-- **`FrameInside` is about the copy the call makes**: with the `len` and the `buffer` that
`encode` gives it, the call goes on with `sendRawContent`, which returns exactly when the
first part of `FrameInside` holds of `len`. -/
theorem readContent_copies {client : Client} {lines : List (List UInt8)}
    (h : client.Encoded lines) {rd : ContentRead} {len : Int32} {buffer : Buffer}
    (hencode : Codec.encode client.buffer rd.base = .ok (len, buffer)) :
    client.readContent rd = (sendRawContent client.sendBuf buffer.peek len.toInt64 >>= fun p =>
      .ok { buffer, sendBuf := p.1, submitted := client.submitted ++ [p.2.bytes p.1] }) ∧
    ((∃ p, sendRawContent client.sendBuf buffer.peek len.toInt64 = .ok p) ↔
      len.toInt64.toUInt64.toNat ≤ 1024) := by
  have hshort := rd.length_content_lt
  constructor
  · rw [readContent, client.onReadStdin_eq rd.not_neg, hencode]
    rfl
  · refine sendRawContent_returns_iff ?_
    rcases Codec.encode_peek h.holds h.reader_zero rd.zero_mem_base
        (by rw [rd.cString_base]; omega) with
      ⟨-, herr⟩ | ⟨len', buffer', hok, -, -, -, hpeek, -⟩
    · cases herr.symm.trans hencode
    · cases hok.symm.trans hencode
      exact hpeek

/-- The lines that were encoded before `rd`, and that of `rd`, are not more than one object
can hold. -/
def Holdable (lines : List (List UInt8)) (rd : ContentRead) : Prop :=
  (frames (lines ++ [rd.content])).length ≤ ptrdiffMax

/-- **What one call does.**  When `buffer` cannot hold the frame none is built, and the
call does not return; otherwise the frame is inside exactly when the line leaves room for
the header in `sendBuf`, and then the call returns. -/
theorem readContent_spec {client : Client} {lines : List (List UInt8)}
    (h : client.Encoded lines) (rd : ContentRead) :
    (¬Holdable lines rd ∧ client.FrameInside rd ∧
      client.readContent rd = .error .lengthError) ∨
    (Holdable lines rd ∧ 1020 < rd.content.length ∧ ¬client.FrameInside rd) ∨
    (Holdable lines rd ∧ rd.content.length ≤ 1020 ∧ client.FrameInside rd ∧
      ∃ client', client.readContent rd = .ok client' ∧
        client'.Encoded (lines ++ [rd.content])) := by
  have hshort := rd.length_content_lt
  have hcases := onReadStdin_cases h rd.not_neg rd.zero_mem_base
    (by rw [rd.cString_base]; omega)
  rw [rd.cString_base, length_frame] at hcases
  rcases hcases with ⟨hlong, hencode, herr⟩ | ⟨len, buffer, hencode, hlen, hholds, hcall⟩
  · refine Or.inl ⟨Nat.not_le.mpr hlong, ?_, herr⟩
    intro len buffer hok
    cases hencode.symm.trans hok
  · have hroom : Holdable lines rd := hholds.length_le
    have hframe : buffer.unread.drop client.buffer.unread.length = frame rd.content := by
      rw [hholds.unread_eq, h.holds.unread_eq, Codec.frames_append, List.drop_left]
      exact List.append_nil _
    rcases hcall with ⟨hlong, -⟩ | ⟨hfits, client', hok, hencoded, -⟩
    · -- `send` is given more than `sendBuf` holds, whatever the peer would say
      refine Or.inr (Or.inl ⟨hroom, by omega, fun hinside => ?_⟩)
      have hcopied : (sizeOfInt len).toNat ≤ 1024 := (hinside len buffer hencode).1
      omega
    · refine Or.inr (Or.inr ⟨hroom, by omega, ?_, client', hok, hencoded⟩)
      intro len' buffer' hok'
      cases hencode.symm.trans hok'
      refine ⟨hlen.trans_le hfits, ?_⟩
      rw [hframe, Codec.accepts_frame_iff (by omega)]
      unfold maxLength
      omega

/-! ## Runs -/

/-- What holds of every element of a list and those before it. -/
theorem forall_split_cons {α : Type} {P : List α → α → Prop} {first : α} {xs : List α} :
    (∀ before x after, first :: xs = before ++ x :: after → P before x) ↔
      P [] first ∧ ∀ before x after, xs = before ++ x :: after → P (first :: before) x := by
  constructor
  · intro h
    exact ⟨h [] first xs rfl, fun before x after hxs => h (first :: before) x after (by rw [hxs]; rfl)⟩
  · rintro ⟨hfirst, hrest⟩ before x after hsplit
    cases before with
    | nil =>
        cases hsplit
        exact hfirst
    | cons b before =>
        cases hsplit
        exact hrest before x after rfl

/-- The lines before `rd` and that of `rd` begin with those before it. -/
theorem Holdable.of_append {lines more : List (List UInt8)} {first rd : ContentRead}
    (h : Holdable (lines ++ [first.content] ++ more) rd) : Holdable lines first := by
  rw [Holdable, List.append_assoc, Codec.frames_append, List.length_append] at h
  exact (Nat.le_add_right _ _).trans h

/-- From a client that has encoded some lines, each frame is inside exactly when each line
that `buffer` can still hold is short. -/
theorem eachStep_frameInside_iff {client : Client} {lines : List (List UInt8)}
    (h : client.Encoded lines) (reads : List ContentRead) :
    AbortingRun.EachStep readContent FrameInside client reads ↔
      ∀ before rd after, reads = before ++ rd :: after →
        Holdable (lines ++ before.map ContentRead.content) rd → rd.content.length ≤ 1020 := by
  induction reads generalizing client lines with
  | nil =>
      refine iff_of_true trivial fun before rd after hsplit => ?_
      exact absurd hsplit.symm (by simp)
  | cons first reads ih =>
      rw [forall_split_cons, List.map_nil, List.append_nil]
      have hshift : ∀ before : List ContentRead,
          lines ++ first.content :: before.map ContentRead.content =
            lines ++ [first.content] ++ before.map ContentRead.content :=
        fun before => List.append_cons lines first.content _
      simp only [List.map_cons, hshift]
      rcases readContent_spec h first with
        ⟨hlong, hinside, herr⟩ | ⟨hroom, hlong, hnot⟩ | ⟨-, hshort, hinside, client', hok, hnext⟩
      · -- no frame is built for this line, nor for a later one
        refine iff_of_true ⟨hinside, fun t ht => ?_⟩ ⟨fun hheld => absurd hheld hlong, ?_⟩
        · rw [herr] at ht
          cases ht
        · intro before rd after _ hheld
          exact absurd hheld.of_append hlong
      · refine iff_of_false (fun hstep => hnot hstep.1) fun hall => ?_
        exact absurd (hall.1 hroom) (Nat.not_le.mpr hlong)
      · rw [AbortingRun.eachStep_cons_of_ok hok, and_iff_right hinside, ih hnext,
          and_iff_right fun _ => hshort]

/-- **The frames are inside exactly when the lines are short**: a line that leaves no room
for a header in `sendBuf` breaks it, and one that does not is accepted by the peer.  The
lines count as long as one object can hold all their frames; after that `encode` throws. -/
theorem framesInside_iff (reads : List ContentRead) :
    FramesInside reads ↔
      ∀ before rd after, reads = before ++ rd :: after →
        Holdable (before.map ContentRead.content) rd → rd.content.length ≤ 1020 := by
  rw [FramesInside, eachStep_frameInside_iff encoded_start]
  simp only [List.nil_append]

/-- A line of 1021 characters. -/
def longLine : ContentRead where
  content := List.replicate 1021 97
  tail := []
  notMem := fun h => absurd (List.eq_of_mem_replicate h) (by decide)
  buffer_le := by
    rw [List.length_append, List.length_replicate]
    decide

theorem length_longLine : longLine.content.length = 1021 := List.length_replicate

/-- Its frame has 1025 bytes, which `memcpy` puts into `sendBuf`. -/
theorem not_framesInside_longLine : ¬FramesInside [longLine] := by
  rintro ⟨hinside, -⟩
  rcases readContent_spec encoded_start longLine with ⟨hlong, -⟩ | ⟨-, -, hnot⟩ | ⟨-, hshort, -⟩
  · refine hlong ?_
    rw [Holdable, List.nil_append, Codec.frames_cons, Codec.frames_nil, List.append_nil,
      length_frame, length_longLine]
    decide
  · exact hnot hinside
  · rw [length_longLine] at hshort
    omega

end Client

end LearnUv
