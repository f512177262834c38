import LearnUv.Chat.CodecSpec

/-!
# `ChatClient`

The client of `chat` sends what is typed: `on_read_stdin` encodes the read buffer, as a
C string, into the global `buffer` and sends, from the front of `buffer`, as many bytes
as the frame has.  Nothing retrieves from `buffer`, and `strlen` finds the end of what
was typed only if the memory behind it happens to hold a NUL.

A read is described by the whole read buffer, not only by what libuv has put there, because
`strlen` goes on behind it.  The result about a run counts what is sent as the front of the
frames of all lines so far, so a line is sent as its own frame only if it is the first line
again, or is shorter and the same as far as it goes; the header in front excludes the latter.

## Main Definitions

* `sendRawContent`, `onReadStdin` — the callbacks, on the globals of `ChatClient.cpp`
* `StdinRead` — a line typed, and what the read buffer holds behind it
* `SendsTyped` — every line is sent as its frame

## Main Results

* `onReadStdin_spec` — what one call sends
* `sendsTyped_iff` — the client sends what was typed exactly when every line is followed
  by a NUL and is the first line again
-/

namespace LearnUv

open Codec (frame frames length_frame)

/-- The globals of `ChatClient.cpp` that sending uses, and what was given to `uv_write`:
for each call, the bytes its buffer held. -/
structure Client where
  buffer : Buffer
  sendBuf : CharArray 1024
  submitted : List (List UInt8)
  deriving DecidableEq

/-- `sendRawContent`: `sendBuf`, and what `uv_write` is given.  `len` is an `ssize_t`. -/
def sendRawContent (sendBuf : CharArray 1024) (buf : List UInt8) (len : Int64) :
    Exec (CharArray 1024 × UvBuf) :=
  stage sendBuf buf len.toUInt64

namespace Client

/-- `on_read_stdin`. -/
def onReadStdin (client : Client) (nread : Int64) (base : List UInt8) : Exec Client := do
  -- any other error is logged, and the call goes on; so does a read of nothing
  if nread < 0 ∧ nread = uvEof then
    return client
  else
    let (len, buffer) ← Codec.encode client.buffer base
    let (sendBuf, ub) ← sendRawContent client.sendBuf buffer.peek len.toInt64
    return { buffer, sendBuf, submitted := client.submitted ++ [ub.bytes sendBuf] }

/-- The globals before the first callback. -/
def start : Client where
  buffer := Buffer.ofDefault
  sendBuf := CharArray.zeros 1024
  submitted := []

/-! ## Runs -/

/-- A read of the standard input: a line without NUL whose frame fits `sendBuf`, in the
buffer of `common_alloc_buffer`, which holds anything behind the line. -/
structure StdinRead where
  bytes : List UInt8
  tail : List UInt8
  ne_nil : bytes ≠ []
  notMem : 0 ∉ bytes
  length_le : bytes.length ≤ 1020
  /-- The buffer libuv asks for has 65536 bytes. -/
  buffer_le : (bytes ++ tail).length ≤ 65536

namespace StdinRead

/-- The read buffer. -/
def base (rd : StdinRead) : List UInt8 := rd.bytes ++ rd.tail

/-- The number of bytes read. -/
def nread (rd : StdinRead) : Int64 := Int64.ofNat rd.bytes.length

/-- What `strlen` takes the line for. -/
def line (rd : StdinRead) : List UInt8 := cString rd.base

end StdinRead

/-- One read. -/
def step (client : Client) (rd : StdinRead) : Exec Client :=
  client.onReadStdin rd.nread rd.base

/-- The callbacks of a sequence of reads. -/
def runStdin (reads : List StdinRead) : Exec Client := AbortingRun.run step start reads

/-- The run returns, and the `i`-th call gave `uv_write` the frame of the `i`-th line. -/
def SendsTyped (reads : List StdinRead) : Prop :=
  ∃ client, runStdin reads = .ok client ∧
    client.submitted = reads.map fun rd => frame rd.bytes

/-! ## What one call sends -/

/-- The client has encoded the lines into `buffer`. -/
structure Encoded (client : Client) (lines : List (List UInt8)) : Prop where
  holds : client.buffer.Holds (frames lines)
  reader_zero : client.buffer.readerIndex_ = 0

theorem encoded_start : start.Encoded [] :=
  ⟨Buffer.holds_ofDefault, rfl⟩

/-- A line can be sent: `strlen` stops inside the read buffer, the frame fits `sendBuf`,
and `buffer` can hold it as well. -/
structure CanSend (lines : List (List UInt8)) (rd : StdinRead) : Prop where
  zero_mem : 0 ∈ rd.base
  frame_le : (frame rd.line).length ≤ 1024
  frames_le : (frames (lines ++ [rd.line])).length ≤ ptrdiffMax

theorem StdinRead.not_neg (rd : StdinRead) : ¬rd.nread < 0 := by
  have hle := rd.length_le
  exact Int64.not_lt.mpr (Int64.zero_le_ofNat_of_lt (by omega))

/-- Unless the input has ended, the call sends from the front of `buffer` as many bytes as
`encode` has returned. -/
theorem onReadStdin_eq (client : Client) {nread : Int64} (hnread : ¬nread < 0)
    (base : List UInt8) :
    client.onReadStdin nread base = (do
      let (len, buffer) ← Codec.encode client.buffer base
      let (sendBuf, ub) ← sendRawContent client.sendBuf buffer.peek len.toInt64
      return { buffer, sendBuf, submitted := client.submitted ++ [ub.bytes sendBuf] }) :=
  if_neg fun hneg => hnread hneg.1

/-- A call with a read buffer in which `strlen` stops: `encode` fails when `buffer` cannot
be that long, and the copy into `sendBuf` when the frame does not fit. -/
theorem onReadStdin_cases {client : Client} {lines : List (List UInt8)}
    (h : client.Encoded lines) {nread : Int64} (hnread : ¬nread < 0) {base : List UInt8}
    (hnul : 0 ∈ base) (hlen : (cString base).length + 4 < 2 ^ 31) :
    (ptrdiffMax < (frames (lines ++ [cString base])).length ∧
      Codec.encode client.buffer base = .error .lengthError ∧
      client.onReadStdin nread base = .error .lengthError) ∨
    ∃ len buffer, Codec.encode client.buffer base = .ok (len, buffer) ∧
      (sizeOfInt len).toNat = (frame (cString base)).length ∧
      buffer.Holds (frames (lines ++ [cString base])) ∧
      ((1024 < (frame (cString base)).length ∧
          client.onReadStdin nread base = .error .outOfBounds) ∨
        (frame (cString base)).length ≤ 1024 ∧
          ∃ client', client.onReadStdin nread base = .ok client' ∧
            client'.Encoded (lines ++ [cString base]) ∧
            client'.submitted = client.submitted ++
              [(frames (lines ++ [cString base])).take (frame (cString base)).length]) := by
  have hcall := client.onReadStdin_eq hnread base
  have hframes : frames lines ++ frame (cString base) = frames (lines ++ [cString base]) := by
    simp
  rcases Codec.encode_peek h.holds h.reader_zero hnul hlen with
    ⟨hlong, herr⟩ | ⟨len, buffer, hencode, hn, hholds, hreader, hpeek, htake⟩
  · refine Or.inl ⟨?_, herr, ?_⟩
    · rwa [← hframes, List.length_append]
    · rw [hcall, herr, AbortingRun.error_bind]
  · rw [hframes] at hholds htake
    refine Or.inr ⟨len, buffer, hencode, hn, hholds, ?_⟩
    by_cases hfits : (frame (cString base)).length ≤ 1024
    · obtain ⟨sendBuf, hstage, -, hbytes⟩ :=
        stage_of_fits client.sendBuf (by decide) hpeek (hn.trans_le hfits)
      let client' : Client :=
        { buffer, sendBuf, submitted := client.submitted ++
          [(frames (lines ++ [cString base])).take (frame (cString base)).length] }
      have hencoded : client'.Encoded (lines ++ [cString base]) := ⟨hholds, hreader⟩
      refine Or.inr ⟨hfits, client', ?_, hencoded, rfl⟩
      rw [hcall, hencode, AbortingRun.ok_bind]
      show (stage client.sendBuf buffer.peek (sizeOfInt len) >>= fun p => _) = _
      rw [hstage, AbortingRun.ok_bind]
      show Except.ok (Client.mk buffer sendBuf
        (client.submitted ++ [UvBuf.bytes ⟨sizeOfInt len⟩ sendBuf])) = _
      rw [hbytes, htake]
    · refine Or.inl ⟨Nat.not_le.mp hfits, ?_⟩
      have hlong : 1024 < (sizeOfInt len).toNat := by
        rw [hn]
        exact Nat.not_le.mp hfits
      rw [hcall, hencode, AbortingRun.ok_bind]
      show (stage client.sendBuf buffer.peek (sizeOfInt len) >>= fun p => _) = _
      rw [stage_of_not_fits hlong, AbortingRun.error_bind]

/-- **What one call sends**: the first bytes of everything that was ever encoded, as many
as the frame of the line has. -/
theorem onReadStdin_spec {client : Client} {lines : List (List UInt8)}
    (h : client.Encoded lines) (rd : StdinRead) :
    (¬CanSend lines rd ∧ ∃ abort, client.step rd = .error abort) ∨
    (CanSend lines rd ∧ ∃ client', client.step rd = .ok client' ∧
      client'.Encoded (lines ++ [rd.line]) ∧
      client'.submitted = client.submitted ++
        [(frames (lines ++ [rd.line])).take (frame rd.line).length]) := by
  by_cases hnul : 0 ∈ rd.base
  · have hline : (cString rd.base).length + 4 < 2 ^ 31 := by
      have hle := length_cString_le rd.base
      have hbuffer := rd.buffer_le
      rw [StdinRead.base] at hle ⊢
      omega
    rcases onReadStdin_cases h rd.not_neg hnul hline with
      ⟨hlong, -, herr⟩ | ⟨len, buffer, -, -, hholds, ⟨hlong, herr⟩ | ⟨hfits, hok⟩⟩
    · exact Or.inl ⟨fun hcan => absurd hcan.frames_le (Nat.not_le.mpr hlong), _, herr⟩
    · exact Or.inl ⟨fun hcan => absurd hcan.frame_le (Nat.not_le.mpr hlong), _, herr⟩
    · exact Or.inr ⟨⟨hnul, hfits, hholds.length_le⟩, hok⟩
  · refine Or.inl ⟨fun hcan => hnul hcan.zero_mem, .outOfBounds, ?_⟩
    rw [step, onReadStdin, if_neg (fun hneg => rd.not_neg hneg.1), Codec.encode, strlen,
      if_neg hnul]
    rfl

/-! ## What a run sends -/

/-- What the calls for some reads send, after some lines have been encoded. -/
def sends (lines : List (List UInt8)) : List StdinRead → List (List UInt8)
  | [] => []
  | rd :: reads =>
      (frames (lines ++ [rd.line])).take (frame rd.line).length ::
        sends (lines ++ [rd.line]) reads

/-- **What a run sends**: a run returns exactly when every line of it can be sent, and
then it has sent `sends`. -/
theorem run_spec {client : Client} {lines : List (List UInt8)} (h : client.Encoded lines)
    (reads : List StdinRead) :
    ((∃ client', AbortingRun.run step client reads = .ok client') ↔
      (∀ rd ∈ reads, 0 ∈ rd.base ∧ (frame rd.line).length ≤ 1024) ∧
        (frames (lines ++ reads.map StdinRead.line)).length ≤ ptrdiffMax) ∧
    ∀ client', AbortingRun.run step client reads = .ok client' →
      client'.submitted = client.submitted ++ sends lines reads := by
  induction reads generalizing client lines with
  | nil =>
      constructor
      · constructor
        · intro _
          refine ⟨List.forall_mem_nil _, ?_⟩
          rw [List.map_nil, List.append_nil]
          exact h.holds.length_le
        · intro _
          exact ⟨client, rfl⟩
      · intro client' hclient
        cases hclient
        exact (List.append_nil _).symm
  | cons rd reads ih =>
      rw [List.map_cons, List.append_cons, List.forall_mem_cons, AbortingRun.run_cons, sends]
      rcases onReadStdin_spec h rd with
        ⟨hcannot, abort, herr⟩ | ⟨hcan, client₁, hok, hencoded, hsubmitted⟩
      · rw [herr, AbortingRun.error_bind]
        constructor
        · constructor
          · rintro ⟨client', hclient⟩
            cases hclient
          · rintro ⟨⟨⟨hnul, hfits⟩, -⟩, htotal⟩
            refine absurd ⟨hnul, hfits, ?_⟩ hcannot
            rw [Codec.frames_append, List.length_append] at htotal
            exact (Nat.le_add_right _ _).trans htotal
        · intro client' hclient
          cases hclient
      · obtain ⟨hreturns, hsends⟩ := ih hencoded
        rw [hok, AbortingRun.ok_bind, hreturns]
        constructor
        · constructor
          · rintro ⟨hreads, htotal⟩
            exact ⟨⟨⟨hcan.zero_mem, hcan.frame_le⟩, hreads⟩, htotal⟩
          · rintro ⟨⟨-, hreads⟩, htotal⟩
            exact ⟨hreads, htotal⟩
        · intro client' hclient
          rw [hsends client' hclient, hsubmitted, List.append_assoc, List.singleton_append]

/-! ## When it is what was typed -/

/-- `strlen` takes the line for what was typed and whatever follows it up to a NUL. -/
theorem StdinRead.line_eq (rd : StdinRead) : rd.line = rd.bytes ++ cString rd.tail :=
  cString_append rd.notMem rd.tail

/-- The call finds the end of the line exactly when a NUL follows it at once. -/
theorem StdinRead.line_eq_bytes_iff (rd : StdinRead) :
    (0 ∈ rd.base ∧ rd.line = rd.bytes) ↔ rd.tail.head? = some 0 := by
  rw [rd.line_eq, List.append_right_eq_self, ← cString_eq_nil_iff, StdinRead.base,
    List.mem_append, or_iff_right rd.notMem]

/-- What the call after some lines sends is the frame of what was typed exactly when the
end of the line is found and the line is the first one again. -/
theorem take_frames_eq_iff {c : List UInt8} {lines later : List (List UInt8)}
    {rd : StdinRead} (hfirst : lines ++ [rd.line] = c :: later) (hc : c.length < 2 ^ 32) :
    (frames (lines ++ [rd.line])).take (frame rd.line).length = frame rd.bytes ↔
      rd.line = rd.bytes ∧ c = rd.bytes := by
  have hlong : (frame rd.line).length ≤ (frames (lines ++ [rd.line])).length := by
    rw [Codec.frames_append, List.length_append, Codec.frames_cons, Codec.frames_nil,
      List.append_nil]
    exact Nat.le_add_left _ _
  have hbytes : rd.bytes.length < 2 ^ 32 := by
    have hle := rd.length_le
    omega
  constructor
  · intro htake
    have hlength := congrArg List.length htake
    rw [List.length_take_of_le hlong, length_frame, length_frame, rd.line_eq,
      List.length_append] at hlength
    have hline : rd.line = rd.bytes := by
      rw [rd.line_eq, List.append_right_eq_self]
      exact List.length_eq_zero_iff.mp (by omega)
    refine ⟨hline, ?_⟩
    rw [hline] at hfirst htake
    rw [hfirst] at htake
    exact (Codec.take_frames_eq_frame_iff hc hbytes).mp htake
  · rintro ⟨hline, hsame⟩
    rw [hfirst, hline]
    exact (Codec.take_frames_eq_frame_iff hc hbytes).mpr hsame

theorem sends_eq_iff {c : List UInt8} {lines : List (List UInt8)} (hc : c.length < 2 ^ 32)
    (reads : List StdinRead) (hfirst : (lines ++ reads.map StdinRead.line).head? = some c) :
    sends lines reads = reads.map (fun rd => frame rd.bytes) ↔
      ∀ rd ∈ reads, rd.line = rd.bytes ∧ c = rd.bytes := by
  induction reads generalizing lines with
  | nil => simp [sends]
  | cons rd reads ih =>
      rw [List.map_cons, List.append_cons] at hfirst
      obtain ⟨later, hlines⟩ : ∃ later, lines ++ [rd.line] = c :: later := by
        cases lines with
        | nil => exact ⟨[], by simpa using hfirst⟩
        | cons l lines => exact ⟨lines ++ [rd.line], by simpa using hfirst⟩
      rw [sends, List.map_cons, List.cons_eq_cons, take_frames_eq_iff hlines hc, ih hfirst,
        List.forall_mem_cons]

/-- **The client sends what was typed exactly when every line is followed by a NUL in the
read buffer, every line is the first one again, and all their frames together are not
more than one object can hold.** -/
theorem sendsTyped_iff (reads : List StdinRead) :
    SendsTyped reads ↔
      (∀ rd ∈ reads, rd.tail.head? = some 0) ∧
      (∀ rd ∈ reads, ∀ first, reads.head? = some first → rd.bytes = first.bytes) ∧
      (frames (reads.map StdinRead.bytes)).length ≤ ptrdiffMax := by
  obtain ⟨hreturns, hsends⟩ := run_spec encoded_start reads
  rw [List.nil_append] at hreturns
  -- in a run that returns, what is sent is the frames of what was typed
  have htyped : (∀ rd ∈ reads, rd.line = rd.bytes ∧
      ∀ first, reads.head? = some first → rd.bytes = first.bytes) ↔
        sends [] reads = reads.map (fun rd => frame rd.bytes) := by
    cases reads with
    | nil => simp [sends]
    | cons first reads =>
        have hc : first.line.length < 2 ^ 32 := by
          have hle := length_cString_le first.base
          have hbuffer := first.buffer_le
          rw [StdinRead.line]
          rw [StdinRead.base] at hle ⊢
          omega
        rw [sends_eq_iff hc (first :: reads) rfl]
        constructor
        · intro h rd hrd
          obtain ⟨hline, hsame⟩ := h rd hrd
          obtain ⟨hfirst, -⟩ := h first List.mem_cons_self
          exact ⟨hline, hfirst.trans (hsame first rfl).symm⟩
        · intro h rd hrd
          obtain ⟨hline, hsame⟩ := h rd hrd
          obtain ⟨hfirst, hfirst'⟩ := h first List.mem_cons_self
          refine ⟨hline, ?_⟩
          intro f hf
          cases hf
          exact hsame.symm.trans hfirst'
  constructor
  · rintro ⟨client, hrun, hsubmitted⟩
    obtain ⟨hcan, htotal⟩ := hreturns.mp ⟨client, hrun⟩
    have hlines := htyped.mpr ((hsends client hrun).symm.trans hsubmitted)
    have hmap : reads.map StdinRead.line = reads.map StdinRead.bytes :=
      List.map_congr_left fun rd hrd => (hlines rd hrd).1
    rw [hmap] at htotal
    refine ⟨?_, fun rd hrd => (hlines rd hrd).2, htotal⟩
    intro rd hrd
    exact rd.line_eq_bytes_iff.mp ⟨(hcan rd hrd).1, (hlines rd hrd).1⟩
  · rintro ⟨hnul, hsame, htotal⟩
    have hline : ∀ rd ∈ reads, 0 ∈ rd.base ∧ rd.line = rd.bytes := by
      intro rd hrd
      exact rd.line_eq_bytes_iff.mpr (hnul rd hrd)
    have hmap : reads.map StdinRead.line = reads.map StdinRead.bytes :=
      List.map_congr_left fun rd hrd => (hline rd hrd).2
    have hcan : ∀ rd ∈ reads, 0 ∈ rd.base ∧ (frame rd.line).length ≤ 1024 := by
      intro rd hrd
      obtain ⟨hzero, heq⟩ := hline rd hrd
      refine ⟨hzero, ?_⟩
      rw [heq, length_frame]
      have hle := rd.length_le
      omega
    rw [← hmap] at htotal
    obtain ⟨client, hrun⟩ := hreturns.mpr ⟨hcan, htotal⟩
    refine ⟨client, hrun, (hsends client hrun).trans ?_⟩
    exact htyped.mp fun rd hrd => ⟨(hline rd hrd).2, hsame rd hrd⟩

/-- The lines `a` and `b`, each followed by a NUL. -/
def twoLines : List StdinRead :=
  [⟨[97], [0], by decide, by decide, by decide, by decide⟩,
    ⟨[98], [0], by decide, by decide, by decide, by decide⟩]

/-- The second line is sent as the frame of the first one. -/
theorem not_sendsTyped_twoLines : ¬SendsTyped twoLines := by
  rintro ⟨client, hrun, hsubmitted⟩
  have hsent : (runStdin twoLines).map Client.submitted =
      .ok [[0, 0, 0, 1, 97], [0, 0, 0, 1, 97]] := by decide +kernel
  rw [hrun] at hsent
  exact absurd ((Except.ok.inj hsent).symm.trans hsubmitted) (by decide)

end Client

end LearnUv
