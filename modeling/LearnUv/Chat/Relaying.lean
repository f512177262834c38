import LearnUv.Chat.ServerSpec

/-!
# What the chat server relays

`onMessage` takes a frame off the codec's buffer and calls `onStringMessageBack` with its
message; `onStringMessageBack` encodes the message again, into the outgoing buffer, and
sends from the front of that buffer to every connection.  Between the two the message is a
`std::string`, which has a length, and then a `const char *`, which does not.

## Main Definitions

* `Codec.Calls` — the calls of the callback that the loop of `onMessage` makes
* `Server.CallsBack` — the calls of `onStringMessageBack` while libuv's callback runs
* `Codec.RelaysFrame` — encoding a message appends the bytes it was decoded from
* `SendInside` — what is copied for a connection stays inside both buffers

## Main Results

* `Codec.calls_iff` — the calls are those for the messages the decoder finds
* `Server.relaysFrame_iff` — a frame is relayed as it came exactly when no byte of its
  message is NUL
* `Server.outgoing_eq_iff` — the same for all frames of a run
* `Server.sendCalls_of_onStringMessageBack` — which copies are made
* `Server.sendInside` — every copy for a connection stays inside
-/

namespace LearnUv

open Codec (frame frames length_frame maxLength decoder deliverAll nextMessage_eq_some)

/-! ## Calls of the callback -/

namespace Codec

/-- From `buffer` and the state `s` the loop of `onMessage` gets to the iteration that
takes `msg` off `b`, leaves `b'`, and calls the callback in the state `t`. -/
inductive Calls {σ : Type} (cb_ : List UInt8 → σ → Exec σ) (b : Buffer) (msg : List UInt8)
    (b' : Buffer) (t : σ) : Buffer → σ → Prop
  | now (h : onMessageStep b = .ok (some (msg, b'))) : Calls cb_ b msg b' t b t
  | later {buffer buffer' : Buffer} {first : List UInt8} {s s' : σ}
      (hstep : onMessageStep buffer = .ok (some (first, buffer')))
      (hfirst : cb_ first s = .ok s') (hrest : Calls cb_ b msg b' t buffer' s') :
      Calls cb_ b msg b' t buffer s

variable {σ : Type} {cb_ : List UInt8 → σ → Exec σ}

/-- What an iteration that delivers a message does to what the buffer holds. -/
theorem onMessageStep_eq_some {b b' : Buffer} {q msg : List UInt8} (h : b.Holds q)
    (hstep : onMessageStep b = .ok (some (msg, b'))) :
    ∃ rest, nextMessage q = some (msg, rest) ∧ b'.Holds rest := by
  rcases onMessageStep_spec h with ⟨-, hnone⟩ | ⟨msg', rest, b'', hnext, hsome, hholds⟩
  · rw [hnone] at hstep
    cases hstep
  · rw [hsome] at hstep
    cases hstep
    exact ⟨rest, hnext, hholds⟩

/-- The bytes such an iteration takes off are the frame of the message. -/
theorem decoded_eq_frame {b b' : Buffer} {decoded msg : List UInt8} (hwf : b.Wf)
    (hstep : onMessageStep b = .ok (some (msg, b')))
    (hdecoded : b.unread = decoded ++ b'.unread) :
    msg.length ≤ maxLength ∧ decoded = frame msg := by
  obtain ⟨rest, hnext, hholds⟩ := onMessageStep_eq_some ⟨hwf, rfl⟩ hstep
  obtain ⟨-, hmax, hframe⟩ := nextMessage_eq_some.mp hnext
  rw [hdecoded, hholds.unread_eq] at hframe
  exact ⟨hmax, List.append_cancel_right hframe⟩

/-- The loop goes on from what it holds: the message of each call is one the decoder
finds, and the callback has returned for those before it. -/
theorem Calls.drain {b b' buffer : Buffer} {msg q : List UInt8} {s t : σ}
    (hcalls : Calls cb_ b msg b' t buffer s) (h : buffer.Holds q) :
    b.Wf ∧ onMessageStep b = .ok (some (msg, b')) ∧
      ∃ before after, (decoder.drain q).1 = before ++ msg :: after ∧
        deliverAll cb_ s before = .ok t := by
  induction hcalls generalizing q with
  | now hstep =>
      obtain ⟨rest, hnext, -⟩ := onMessageStep_eq_some h hstep
      have hdrain := IncrementalDecoder.drain_of_some (D := decoder) hnext
      exact ⟨h.wf, hstep, [], (decoder.drain rest).1, by rw [hdrain]; rfl, rfl⟩
  | @later buffer buffer' first s s' hstep hfirst hrest ih =>
      obtain ⟨rest, hnext, hholds⟩ := onMessageStep_eq_some h hstep
      obtain ⟨hwf, hcall, before, after, hsplit, hrun⟩ := ih hholds
      have hdrain := IncrementalDecoder.drain_of_some (D := decoder) hnext
      refine ⟨hwf, hcall, first :: before, after, ?_, ?_⟩
      · rw [hdrain, hsplit]
        rfl
      · rw [deliverAll, AbortingRun.run_cons, hfirst]
        exact hrun

/-- There is no call from a buffer on which the loop aborts at once. -/
theorem Calls.step_ne_error {b b' buffer : Buffer} {msg : List UInt8} {s t : σ}
    (hcalls : Calls cb_ b msg b' t buffer s) (abort : Abort) :
    onMessageStep buffer ≠ .error abort := by
  intro herr
  cases hcalls with
  | now hstep => cases herr.symm.trans hstep
  | later hstep _ _ => cases herr.symm.trans hstep

/-- The callback is called for every message the decoder finds, as long as it returns. -/
theorem exists_calls {q : List UInt8} {buffer : Buffer} (h : buffer.Holds q)
    {before after : List (List UInt8)} {msg : List UInt8} {s t : σ}
    (hsplit : (decoder.drain q).1 = before ++ msg :: after)
    (hrun : deliverAll cb_ s before = .ok t) : ∃ b b', Calls cb_ b msg b' t buffer s := by
  induction before generalizing q buffer s with
  | nil =>
      cases hrun
      rcases onMessageStep_spec h with ⟨hnone, -⟩ | ⟨m, rest, b', hnext, hstep, -⟩
      · rw [IncrementalDecoder.drain_of_none (D := decoder) hnone] at hsplit
        cases hsplit
      · rw [IncrementalDecoder.drain_of_some (D := decoder) hnext] at hsplit
        cases hsplit
        exact ⟨buffer, b', .now hstep⟩
  | cons first before ih =>
      rcases onMessageStep_spec h with ⟨hnone, -⟩ | ⟨m, rest, b', hnext, hstep, hholds⟩
      · rw [IncrementalDecoder.drain_of_none (D := decoder) hnone] at hsplit
        cases hsplit
      · rw [IncrementalDecoder.drain_of_some (D := decoder) hnext] at hsplit
        obtain ⟨rfl, hsplit'⟩ := List.cons_eq_cons.mp hsplit
        rw [deliverAll, AbortingRun.run_cons, AbortingRun.bind_eq_ok] at hrun
        obtain ⟨s', hfirst, hrun⟩ := hrun
        obtain ⟨c, c', hcalls⟩ := ih hholds hsplit' hrun
        exact ⟨c, c', .later hstep hfirst hcalls⟩

/-- **The calls of the callback** are those for the messages the decoder finds in what the
buffer holds, each after the callback has returned for the ones before it. -/
theorem calls_iff {q : List UInt8} {buffer : Buffer} (h : buffer.Holds q)
    {msg : List UInt8} {s t : σ} :
    (∃ b b', Calls cb_ b msg b' t buffer s) ↔
      ∃ before after, (decoder.drain q).1 = before ++ msg :: after ∧
        deliverAll cb_ s before = .ok t := by
  constructor
  · rintro ⟨b, b', hcalls⟩
    exact (hcalls.drain h).2.2
  · rintro ⟨before, after, hsplit, hrun⟩
    exact exists_calls h hsplit hrun

end Codec

namespace Server

/-- While the server handles `event` in the state `s`, the loop of `onMessage` takes `msg`
off `b`, leaves `b'`, and calls `onStringMessageBack` in the state `t`. -/
def CallsBack (s : Server) (event : Event) (b : Buffer) (msg : List UInt8) (b' : Buffer)
    (t : Server) : Prop :=
  ∃ h nread base buffer, event = .read h nread base ∧ nread ≠ uvEof ∧ nread ≠ 0 ∧
    s.codec.buffer.append base nread.toUInt64 = .ok buffer ∧
      Codec.Calls onStringMessageBack b msg b' t buffer s

/-- The state in which `onStringMessageBack` is called, and what it is called with. -/
theorem CallsBack.spec {history : List Event} {s t : Server} {event : Event} {b b' : Buffer}
    {msg : List UInt8} (hcall : s.CallsBack event b msg b' t) (h : Reaches history s)
    (henabled : s.Enabled event) :
    t.Wf ∧ SameTable s t ∧ b.Wf ∧ Codec.onMessageStep b = .ok (some (msg, b')) ∧
      msg.length ≤ maxLength := by
  obtain ⟨hd, nread, base, buffer, rfl, -, -, happend, hcalls⟩ := hcall
  have hwf := h.wf
  have hheld : s.codec.buffer.Holds s.codec.buffer.unread := ⟨hwf.codec, rfl⟩
  have hbuffer : buffer.Holds (fed s.codec.buffer.unread nread base) := by
    rcases append_cases hheld henabled.2 with
      ⟨abort, herr⟩ | ⟨-, buffer', hok, hfed⟩ | ⟨-, buffer', hok, herr⟩
    · cases herr.symm.trans happend
    · cases hok.symm.trans happend
      exact hfed
    · -- a negative `nread` has taken back more than was unread
      cases hok.symm.trans happend
      exact absurd herr (hcalls.step_ne_error _)
  -- the callback has returned for the messages before this one, and has kept the table
  obtain ⟨hb, hstep, before, after, hsplit, hrun⟩ := hcalls.drain hbuffer
  have hmax : ∀ m ∈ before ++ msg :: after, m.length ≤ maxLength := by
    rw [← hsplit]
    exact fun m => Codec.length_le_of_mem_drain
  obtain ⟨ht, hsame, -⟩ :=
    deliverAll_spec hwf (fun m hm => hmax m (List.mem_append_left _ hm)) hrun
  exact ⟨ht, hsame, hb, hstep, hmax msg (by simp)⟩

/-! ## A client that sends one frame -/

/-- The server after a client has connected. -/
theorem reaches_accept (sendBuf : CharArray 8192) :
    Reaches [.connection 0 0 sendBuf] (start.accept sendBuf) :=
  .event .start trivial rfl

/-- Its handle is being read. -/
theorem streams_accept (sendBuf : CharArray 8192) :
    (start.accept sendBuf).streams ⟨0⟩ = some ⟨some ⟨0⟩, true, 0⟩ := rfl

/-- A read that brings the frame of a message, and nothing else. -/
def frameRead (msg : List UInt8) : Event :=
  .read ⟨0⟩ (Int64.ofNat (frame msg).length) (frame msg)

/-- After a client has connected, the server relays a frame that one read brings. -/
theorem exists_callsBack (sendBuf : CharArray 8192) {msg : List UInt8} (hne : msg ≠ [])
    (hmax : msg.length ≤ maxLength) :
    (start.accept sendBuf).Enabled (frameRead msg) ∧
      ∃ b b', (start.accept sendBuf).CallsBack (frameRead msg) b msg b' (start.accept sendBuf) ∧
        b.unread = frame msg ++ b'.unread := by
  unfold maxLength at hmax
  have hframe : (frame msg).length = 4 + msg.length := length_frame msg
  have hnread : (Int64.ofNat (frame msg).length).toInt = (frame msg).length :=
    Int64.toInt_ofNat_of_lt (by omega)
  have hlen : (Int64.ofNat (frame msg).length).toUInt64.toNat = (frame msg).length := by
    rw [Int64.toNat_toUInt64_of_le (Int64.zero_le_ofNat_of_lt (by omega)), ← Int64.toNat_toInt,
      hnread, Int.toNat_natCast]
  have hnew : Codec.new.buffer.Holds [] := Buffer.holds_new 8192 (by decide)
  have hroom : (Int64.ofNat (frame msg).length).toUInt64 ≤ Codec.new.buffer.writeableBytes := by
    have hsize : Codec.new.buffer.buffer_.bytes.length = 8192 := List.length_replicate
    have hwriter : Codec.new.buffer.writerIndex_.toNat = 0 := rfl
    rw [UInt64.le_iff_toNat_le, hlen, hnew.wf.toNat_writeableBytes, hsize, hwriter]
    omega
  obtain ⟨b, happend, hb, -⟩ := hnew.append_of_fits hlen.le hroom
  rw [hlen, List.take_length, List.nil_append] at hb
  have hnext : Codec.nextMessage (frame msg ++ []) = some (msg, []) :=
    Codec.nextMessage_frame hmax (Or.inl hne)
  rw [List.append_nil] at hnext
  rcases Codec.onMessageStep_spec hb with ⟨hnone, -⟩ | ⟨msg', rest, b', hsome, hstep, hb'⟩
  · cases hnone.symm.trans hnext
  · cases hsome.symm.trans hnext
    have hne' : ∀ n : Int64, n.toInt ≤ 0 → Int64.ofNat (frame msg).length ≠ n := by
      rintro n hn rfl
      omega
    refine ⟨⟨⟨_, streams_accept sendBuf, rfl⟩, hnread.le⟩, b, b', ?_, ?_⟩
    · exact ⟨_, _, _, b, rfl, hne' uvEof (by decide), hne' 0 (by decide), happend, .now hstep⟩
    · rw [hb.unread_eq, hb'.unread_eq, List.append_nil]

end Server

/-! ## Frames that are relayed as they came -/

/-- **The frame is relayed**: to encode the message again, as `onStringMessageBack` does,
appends the bytes it was decoded from to the outgoing buffer, and returns their number. -/
def Codec.RelaysFrame (out : Buffer) (decoded msg : List UInt8) : Prop :=
  ∃ len out', Codec.encode out (cStr msg) = .ok (len, out') ∧
    out'.unread = out.unread ++ decoded ∧ len.toInt = decoded.length

/-- A message is encoded as its frame exactly when it is a C string. -/
theorem Codec.relaysFrame_frame_iff {out : Buffer} {sent msg : List UInt8}
    (hout : out.Holds sent) (hreader : out.readerIndex_ = 0) (hmax : msg.length ≤ maxLength) :
    RelaysFrame out (frame msg) msg ↔
      0 ∉ msg ∧ sent.length + (frame msg).length ≤ ptrdiffMax := by
  have hlen : (cString (cStr msg)).length + 4 < 2 ^ 31 := by
    have hle := length_cString_le msg
    unfold maxLength at hmax
    rw [cString_cStr]
    omega
  rcases encode_spec hout hreader (zero_mem_cStr msg) hlen with
    ⟨hlong, herr⟩ | ⟨n, out', hencode, hn, hholds, -⟩
  · refine iff_of_false ?_ ?_
    · rintro ⟨n, out', hok, -⟩
      rw [herr] at hok
      cases hok
    · rintro ⟨hnul, hroom⟩
      rw [cString_cStr, cString_of_notMem hnul] at hlong
      omega
  · rw [cString_cStr] at hn hholds
    constructor
    · rintro ⟨n', out'', hok, hunread, -⟩
      rw [hencode] at hok
      cases hok
      rw [hholds.unread_eq, hout.unread_eq] at hunread
      -- what was appended is the frame of the C string, and no other message has that frame
      have hmsg := frame_injective (List.append_cancel_left hunread)
      have hroom := hholds.length_le
      rw [hmsg, List.length_append] at hroom
      exact ⟨cString_eq_self_iff.mp hmsg, hroom⟩
    · rintro ⟨hnul, -⟩
      rw [cString_of_notMem hnul] at hn hholds
      exact ⟨n, out', hencode, by rw [hholds.unread_eq, hout.unread_eq], hn⟩

/-- **A frame is relayed as it came exactly when its message has no NUL**, in every run of
the server and for every message it decodes; apart from that, one object has to be able to
hold the outgoing buffer. -/
theorem Server.relaysFrame_iff {history : List Event} {s t : Server} {event : Event}
    {b b' : Buffer} {msg decoded : List UInt8} (h : Reaches history s)
    (henabled : s.Enabled event) (hcall : s.CallsBack event b msg b' t)
    (hdecoded : b.unread = decoded ++ b'.unread) :
    Codec.RelaysFrame t.buf decoded msg ↔
      0 ∉ msg ∧ t.buf.unread.length + decoded.length ≤ ptrdiffMax := by
  obtain ⟨ht, -, hb, hstep, -⟩ := hcall.spec h henabled
  obtain ⟨hmax, rfl⟩ := Codec.decoded_eq_frame hb hstep hdecoded
  exact Codec.relaysFrame_frame_iff ⟨ht.outgoing.wf, rfl⟩ ht.reader_zero hmax

/-- The message `[7]` is relayed as it came. -/
theorem Server.relaysFrame_iff_seven : ∃ s t event b b' msg decoded,
    Reaches [.connection 0 0 (CharArray.zeros 8192)] s ∧ s.CallsBack event b msg b' t ∧
      (Codec.RelaysFrame t.buf decoded msg ↔
        0 ∉ msg ∧ t.buf.unread.length + decoded.length ≤ ptrdiffMax) := by
  have hmax : ([7] : List UInt8).length ≤ maxLength := by decide
  obtain ⟨henabled, b, b', hcall, hdecoded⟩ :=
    exists_callsBack (CharArray.zeros 8192) (by decide) hmax
  have hreach := reaches_accept (CharArray.zeros 8192)
  exact ⟨_, _, _, b, b', _, _, hreach, hcall, relaysFrame_iff hreach henabled hcall hdecoded⟩

/-- A message that is a NUL is relayed as the empty one. -/
theorem Server.not_relaysFrame_nul : ∃ s t event b b' msg decoded,
    Reaches [.connection 0 0 (CharArray.zeros 8192)] s ∧ s.Enabled event ∧
      s.CallsBack event b msg b' t ∧ b.unread = decoded ++ b'.unread ∧
        ¬Codec.RelaysFrame t.buf decoded msg := by
  have hmax : ([0] : List UInt8).length ≤ maxLength := by decide
  obtain ⟨henabled, b, b', hcall, hdecoded⟩ :=
    exists_callsBack (CharArray.zeros 8192) (by decide) hmax
  have hreach := reaches_accept (CharArray.zeros 8192)
  refine ⟨_, _, _, b, b', [0], _, hreach, henabled, hcall, hdecoded, fun hrelays => ?_⟩
  have hout : (start.accept (CharArray.zeros 8192)).buf.Holds [] := Buffer.holds_ofDefault
  have hnul := ((Codec.relaysFrame_frame_iff hout rfl hmax).mp hrelays).1
  exact hnul List.mem_cons_self

/-- C strings are not longer than the strings they are taken from. -/
theorem Codec.length_frames_map_cString_le (msgs : List (List UInt8)) :
    (frames (msgs.map cString)).length ≤ (frames msgs).length := by
  induction msgs with
  | nil => exact le_rfl
  | cons msg msgs ih =>
      have hle := length_cString_le msg
      rw [List.map_cons, frames_cons, frames_cons, List.length_append, List.length_append,
        length_frame, length_frame]
      omega

theorem Codec.frames_map_cString_eq_iff {msgs : List (List UInt8)} :
    frames (msgs.map cString) = frames msgs ↔ ∀ msg ∈ msgs, 0 ∉ msg := by
  induction msgs with
  | nil => exact iff_of_true rfl (List.forall_mem_nil _)
  | cons msg msgs ih =>
      rw [List.map_cons, frames_cons, frames_cons, List.forall_mem_cons, ← ih,
        ← cString_eq_self_iff]
      constructor
      · intro h
        -- no C string is longer than its message, so with the same total none is shorter
        have hlength := congrArg List.length h
        have hle := length_cString_le msg
        have hrest := length_frames_map_cString_le msgs
        rw [List.length_append, List.length_append, length_frame, length_frame] at hlength
        have hframe : (frame (cString msg)).length = (frame msg).length := by
          rw [length_frame, length_frame]
          omega
        obtain ⟨hfirst, hothers⟩ := List.append_inj h hframe
        exact ⟨frame_injective hfirst, hothers⟩
      · rintro ⟨hfirst, hothers⟩
        rw [hfirst, hothers]

/-- **The outgoing buffer holds the frames that came exactly when no message has a NUL.** -/
theorem Server.outgoing_eq_iff {history : List Event} {s : Server} (h : Reaches history s) :
    s.buf.unread = frames s.delivered ↔ ∀ msg ∈ s.delivered, 0 ∉ msg := by
  have hencoded : s.encoded = s.delivered.map cString := by
    rw [encoded, delivered, List.map_map]
    rfl
  rw [h.wf.outgoing.unread_eq, hencoded]
  exact Codec.frames_map_cString_eq_iff

/-! ## What is copied for a connection -/

/-- `conn->send(buf.peek(), len)` is called by `onStringMessageBack(msg)` in the state `t`:
after `encode` has returned `len`, for each connection. -/
structure Server.SendCall (t : Server) (msg : List UInt8) (conn : ConnPtr) (len : Int32)
    (buf : Buffer) : Prop where
  encoded : Codec.encode t.buf (cStr msg) = .ok (len, buf)
  conn_mem : conn ∈ t.conns

/-- What the loop of `onStringMessageBack` has done when it returns: every connection was sent
to with the same arguments, and only the connections were written to. -/
theorem Server.sendAll_eq_ok {data : List UInt8} {len : UInt64} {conns : List ConnPtr}
    {s t : Server} {writes : List Write} (h : sendAll data len conns s = .ok (t, writes)) :
    (∃ heap, t = { s with heap }) ∧ List.Forall₂ (fun conn w => ∃ c c' ub,
      Connection.send c data len = .ok (c', ub) ∧ w = ⟨conn, c'.handle_, ub.bytes c'.sendBuf⟩)
        conns writes := by
  induction conns generalizing s writes with
  | nil =>
      cases h
      exact ⟨⟨_, rfl⟩, .nil⟩
  | cons conn conns ih =>
      rw [sendAll] at h
      obtain ⟨c, -, h⟩ := AbortingRun.bind_eq_ok.mp h
      obtain ⟨⟨c', ub⟩, hsend, h⟩ := AbortingRun.bind_eq_ok.mp h
      obtain ⟨⟨u, writes'⟩, hrest, h⟩ := AbortingRun.bind_eq_ok.mp h
      cases h
      obtain ⟨⟨heap, rfl⟩, hcalls⟩ := ih hrest
      exact ⟨⟨heap, rfl⟩, .cons ⟨c, c', ub, hsend, rfl⟩ hcalls⟩

/-- **The calls of `send` are those of `SendCall`**: one for each connection, with the bytes
of the buffer that `encode` has left and the length that it has returned. -/
theorem Server.sendCalls_of_onStringMessageBack {t u : Server} {msg : List UInt8}
    (h : onStringMessageBack msg t = .ok u) : ∃ len buf writes,
      u.broadcasts = t.broadcasts ++ [⟨msg, t.conns, writes⟩] ∧
        List.Forall₂ (fun conn w => t.SendCall msg conn len buf ∧ ∃ c c' ub,
          Connection.send c buf.peek (sizeOfInt len) = .ok (c', ub) ∧
            w = ⟨conn, c'.handle_, ub.bytes c'.sendBuf⟩) t.conns writes := by
  rw [onStringMessageBack] at h
  obtain ⟨⟨len, buf⟩, hencode, h⟩ := AbortingRun.bind_eq_ok.mp h
  obtain ⟨⟨u', writes⟩, hsends, h⟩ := AbortingRun.bind_eq_ok.mp h
  cases h
  obtain ⟨⟨heap, rfl⟩, hcalls⟩ := sendAll_eq_ok hsends
  refine ⟨len, buf, writes, rfl, ?_⟩
  refine List.forall₂_iff_zip.mpr ⟨hcalls.length_eq, fun {conn w} hmem => ⟨⟨hencode, ?_⟩, ?_⟩⟩
  · exact (List.of_mem_zip hmem).1
  · exact (List.forall₂_iff_zip.mp hcalls).2 hmem

/-- **The copy stays inside**: it is a header at least, and a header and the largest message
at most, for which `sendBuf` has room; and it is not more than `buf` holds. -/
structure SendInside (len : Int32) (buf : Buffer) : Prop where
  header_le : Codec.kHeaderLen ≤ len
  le_frame : len ≤ Codec.kHeaderLen + Codec.kMaxMessageSize
  frame_le : (Codec.kHeaderLen + Codec.kMaxMessageSize).toInt ≤ 8192
  readable : sizeOfInt len ≤ buf.readableBytes

/-- A copy that stays inside is made. -/
theorem SendInside.send_returns {len : Int32} {buf : Buffer} (h : SendInside len buf)
    (hwf : buf.Wf) (conn : Connection) :
    ∃ p, conn.send buf.peek (sizeOfInt len) = .ok p := by
  have hheader := Int32.le_iff_toInt_le.mp h.header_le
  have hframe := (Int32.le_iff_toInt_le.mp h.le_frame).trans h.frame_le
  have hzero : Codec.kHeaderLen.toInt = 4 := rfl
  have hfits : (sizeOfInt len).toNat ≤ 8192 := by
    rw [toNat_sizeOfInt (by omega)]
    omega
  have hheld : buf.Holds buf.unread := ⟨hwf, rfl⟩
  obtain ⟨hpeek, -⟩ := hheld.take_peek (hheld.toNat_le_length h.readable)
  obtain ⟨sendBuf, hsend, -⟩ := conn.send_of_fits hpeek hfits
  exact ⟨_, hsend⟩

/-- What `encode` returns for a message that the decoder accepts. -/
theorem SendInside.of_encode {out buf : Buffer} {sent msg : List UInt8} {len : Int32}
    (hout : out.Holds sent) (hreader : out.readerIndex_ = 0) (hmax : msg.length ≤ maxLength)
    (hencode : Codec.encode out (cStr msg) = .ok (len, buf)) : SendInside len buf := by
  have hle := length_cString_le msg
  unfold maxLength at hmax
  rcases Codec.encode_spec hout hreader (zero_mem_cStr msg) (by rw [cString_cStr]; omega) with
    ⟨-, herr⟩ | ⟨n, buf', hok, hn, hholds, -⟩
  · cases herr.symm.trans hencode
  · cases hok.symm.trans hencode
    rw [cString_cStr] at hn hholds
    rw [length_frame] at hn
    have hheader : Codec.kHeaderLen.toInt = 4 := rfl
    have hframe : (Codec.kHeaderLen + Codec.kMaxMessageSize).toInt = 4100 := rfl
    -- the C string is not longer than the message, which the decoder has accepted
    constructor
    · rw [Int32.le_iff_toInt_le]
      omega
    · rw [Int32.le_iff_toInt_le]
      omega
    · omega
    · rw [UInt64.le_iff_toNat_le, ← hholds.length_eq, toNat_sizeOfInt (by omega), hn,
        List.length_append, length_frame]
      omega

/-- **Every copy for a connection stays inside `sendBuf` and inside what the outgoing buffer
holds**, in every run of the server. -/
theorem Server.sendInside {history : List Event} {s t : Server} {event : Event}
    {b b' buf : Buffer} {msg : List UInt8} {conn : ConnPtr} {len : Int32}
    (h : Reaches history s) (henabled : s.Enabled event)
    (hcall : s.CallsBack event b msg b' t) (hsend : t.SendCall msg conn len buf) :
    SendInside len buf := by
  obtain ⟨ht, -, -, -, hmax⟩ := hcall.spec h henabled
  exact .of_encode ⟨ht.outgoing.wf, rfl⟩ ht.reader_zero hmax hsend.encoded

/-- The frame of `[7]` is sent to the client it came from. -/
theorem Server.sendInside_seven : ∃ s t event b b' msg conn len buf,
    Reaches [.connection 0 0 (CharArray.zeros 8192)] s ∧ s.CallsBack event b msg b' t ∧
      t.SendCall msg conn len buf ∧ SendInside len buf := by
  have hmax : ([7] : List UInt8).length ≤ maxLength := by decide
  obtain ⟨henabled, b, b', hcall, -⟩ := exists_callsBack (CharArray.zeros 8192) (by decide) hmax
  have hreach := reaches_accept (CharArray.zeros 8192)
  obtain ⟨⟨len, buf⟩, hencode⟩ :=
    AbortingRun.exists_eq_ok (x := Codec.encode Buffer.ofDefault (cStr [7])) (by decide +kernel)
  have hsend : (start.accept (CharArray.zeros 8192)).SendCall [7] ⟨0⟩ len buf :=
    ⟨hencode, List.mem_singleton_self _⟩
  exact ⟨_, _, _, b, b', _, _, len, buf, hreach, hcall, hsend,
    sendInside hreach henabled hcall hsend⟩

end LearnUv
