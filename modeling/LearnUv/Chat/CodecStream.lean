import LearnUv.Chat.CodecSpec

/-!
# The chat decoder on a stream

A fresh `Codec` is fed with the reads of one connection.  As long as no `append`
aborts, the messages delivered and the bytes still in the buffer are those of the
decoder on the whole stream received (`runReads_spec`), so what is true of the decoder
is true of every fragmentation.

Each result adds to this what the decoder does on one byte string.  Frames are prefix-free, so
a stream of frames is decoded into its messages up to one that is not complete, or is empty
with nothing behind it.  And the decoder stops for good at a header that announces more than
`kMaxMessageSize` bytes, so the backlog then grows with every read; otherwise what is left is
shorter than one frame.

## Main Results

* `runReads_chunking` — the fragmentation does not matter
* `runReads_conserves` — no byte of the stream is lost, duplicated or invented
* `deliversOnTime_iff` — decoding undoes encoding on time, exactly when no read ends
  with the frame of an empty message
* `backlogBounded_iff` — the backlog stays below one frame, exactly when no header
  that announces too much is followed by more than a frame of input
-/

namespace LearnUv

open IncrementalDecoder (drain_of_none)

/-! ## Streams of reads -/

namespace Read

@[simp] theorem stream_nil : stream [] = [] := rfl

theorem stream_append (first second : List Read) :
    stream (first ++ second) = stream first ++ stream second := by
  simp [stream]

theorem stream_concat (reads : List Read) (rd : Read) :
    stream (reads ++ [rd]) = stream reads ++ rd.bytes := by
  simp [stream]

/-- The first reads bring the beginning of the stream. -/
theorem stream_prefix {first reads : List Read} (h : first <+: reads) :
    stream first <+: stream reads := by
  obtain ⟨second, rfl⟩ := h
  exact ⟨stream second, (stream_append first second).symm⟩

/-- A read that fills its buffer. -/
def full (bytes : List UInt8) (h : bytes.length ≤ ptrdiffMax) : Read where
  base := bytes
  nread := UInt64.ofNat bytes.length
  nread_le := Nat.mod_le _ _
  nread_le_max := (Nat.mod_le _ _).trans h

end Read

namespace Codec

/-! ## Runs of the codec -/

theorem deliverAll_deliver (delivered msgs : List (List UInt8)) :
    deliverAll deliver delivered msgs = .ok (delivered ++ msgs) := by
  induction msgs generalizing delivered with
  | nil => simp [deliverAll]
  | cons msg msgs ih =>
      have hrest := ih (delivered ++ [msg])
      rw [List.append_assoc, List.singleton_append] at hrest
      rw [deliverAll, AbortingRun.run_cons, deliver, AbortingRun.ok_bind]
      exact hrest

/-- One read of a codec that has decoded some stream so far. -/
theorem readStep_spec {codec : Codec} {xs : List UInt8}
    (h : codec.buffer.Holds (decoder.drain xs).2) (rd : Read) :
    (∃ abort, codec.buffer.append rd.base rd.nread = .error abort ∧
      readStep (codec, (decoder.drain xs).1) rd = .error abort) ∨
    ∃ codec', codec'.buffer.Holds (decoder.drain (xs ++ rd.bytes)).2 ∧
      readStep (codec, (decoder.drain xs).1) rd =
        .ok (codec', (decoder.drain (xs ++ rd.bytes)).1) := by
  rcases onUvRead_spec h rd with ⟨abort, happend, hcb⟩ | ⟨codec', hholds, hcb⟩
  · exact Or.inl ⟨abort, happend, hcb deliver _⟩
  · rw [decoder.drain_append xs rd.bytes]
    refine Or.inr ⟨codec', hholds, ?_⟩
    rw [readStep, hcb, deliverAll_deliver]
    rfl

/-- **A run decodes the stream it received.** -/
theorem runReads_spec {reads : List Read} {codec : Codec} {delivered : List (List UInt8)}
    (hrun : runReads reads = .ok (codec, delivered)) :
    codec.buffer.Holds (decoder.drain (Read.stream reads)).2 ∧
      delivered = (decoder.drain (Read.stream reads)).1 := by
  refine AbortingRun.run_induction readStep (P := fun history state =>
    state.1.buffer.Holds (decoder.drain (Read.stream history)).2 ∧
      state.2 = (decoder.drain (Read.stream history)).1) ?_ ?_ hrun
  · simp only [Read.stream_nil, IncrementalDecoder.drain_nil, and_true]
    exact Buffer.holds_new 8192 (by decide)
  · rintro history ⟨codec, ds⟩ rd ⟨codec', ds'⟩ - ⟨hholds, hds⟩ hstep
    dsimp only at hholds hds
    subst hds
    rw [Read.stream_concat]
    rcases readStep_spec hholds rd with ⟨abort, -, herr⟩ | ⟨codec₂, hholds₂, hok⟩
    · rw [herr] at hstep
      cases hstep
    · rw [hok] at hstep
      cases hstep
      exact ⟨hholds₂, rfl⟩

/-- A run can only abort in the `append` of one of its reads. -/
theorem runReads_eq_error {reads : List Read} {abort : Abort}
    (hrun : runReads reads = .error abort) :
    ∃ before rd after codec delivered, reads = before ++ rd :: after ∧
      runReads before = .ok (codec, delivered) ∧
        codec.buffer.append rd.base rd.nread = .error abort := by
  obtain ⟨before, rd, after, ⟨codec, ds⟩, hreads, hbefore, hstep⟩ :=
    AbortingRun.run_eq_error readStep hrun
  obtain ⟨hholds, rfl⟩ := runReads_spec hbefore
  refine ⟨before, rd, after, codec, _, hreads, hbefore, ?_⟩
  rcases readStep_spec hholds rd with ⟨abort', happend, herr⟩ | ⟨codec₂, -, hok⟩
  · rw [herr] at hstep
    cases hstep
    exact happend
  · rw [hok] at hstep
    cases hstep

/-- The part of a run up to some read has decoded the part of the stream up to it. -/
theorem runReads_prefix {first reads : List Read} {codec : Codec}
    {delivered : List (List UInt8)} (hpre : first <+: reads)
    (hrun : runReads reads = .ok (codec, delivered)) :
    ∃ codec', runReads first = .ok (codec', (decoder.drain (Read.stream first)).1) ∧
      codec'.buffer.Holds (decoder.drain (Read.stream first)).2 := by
  obtain ⟨⟨codec', ds⟩, hfirst⟩ := AbortingRun.run_prefix_ok readStep hpre hrun
  obtain ⟨hholds, rfl⟩ := runReads_spec hfirst
  exact ⟨codec', hfirst, hholds⟩

/-! ## The fragmentation does not matter -/

/-- **Two ways of cutting one stream give the same messages and leave the same bytes**,
whatever the stream is. -/
theorem runReads_chunking {reads₁ reads₂ : List Read} {codec₁ codec₂ : Codec}
    {delivered₁ delivered₂ : List (List UInt8)}
    (hstream : Read.stream reads₁ = Read.stream reads₂)
    (hrun₁ : runReads reads₁ = .ok (codec₁, delivered₁))
    (hrun₂ : runReads reads₂ = .ok (codec₂, delivered₂)) :
    delivered₁ = delivered₂ ∧ codec₁.buffer.unread = codec₂.buffer.unread := by
  obtain ⟨hholds₁, rfl⟩ := runReads_spec hrun₁
  obtain ⟨hholds₂, rfl⟩ := runReads_spec hrun₂
  rw [hholds₁.unread_eq, hholds₂.unread_eq, hstream]
  exact ⟨rfl, rfl⟩

/-- The frame of `[7]` in one read. -/
def wholeReads : List Read := [Read.full [0, 0, 0, 1, 7] (by decide)]

/-- The frame of `[7]`, cut inside its header and with an empty read. -/
def cutReads : List Read :=
  [Read.full [0, 0] (by decide), Read.full [] (by decide), Read.full [0, 1, 7] (by decide)]

theorem runReads_chunking_wholeReads : ∃ codec₁ codec₂ delivered₁ delivered₂,
    runReads wholeReads = .ok (codec₁, delivered₁) ∧
      runReads cutReads = .ok (codec₂, delivered₂) ∧
        delivered₁ = delivered₂ ∧ codec₁.buffer.unread = codec₂.buffer.unread := by
  obtain ⟨⟨codec₁, delivered₁⟩, hrun₁⟩ :=
    AbortingRun.exists_eq_ok (x := runReads wholeReads) (by decide +kernel)
  obtain ⟨⟨codec₂, delivered₂⟩, hrun₂⟩ :=
    AbortingRun.exists_eq_ok (x := runReads cutReads) (by decide +kernel)
  exact ⟨codec₁, codec₂, delivered₁, delivered₂, hrun₁, hrun₂,
    runReads_chunking (by decide +kernel) hrun₁ hrun₂⟩

/-! ## No byte is lost, duplicated or invented -/

/-- **Conservation.**  Every loop of `onMessage` terminates; a run aborts only in an
`append`; and in a run that does not abort, the messages delivered are at most
`kMaxMessageSize` long, their frames followed by the bytes still readable are the
whole stream, and these bytes are at most a header, or a header that announces too
much, or less than they announce. -/
theorem runReads_conserves :
    (WellFounded fun b' b : Buffer => ∃ msg, onMessageStep b = .ok (some (msg, b'))) ∧
    ∀ reads : List Read,
      (∀ abort, runReads reads = .error abort →
        ∃ before rd after codec delivered, reads = before ++ rd :: after ∧
          runReads before = .ok (codec, delivered) ∧
            codec.buffer.append rd.base rd.nread = .error abort) ∧
      ∀ codec delivered, runReads reads = .ok (codec, delivered) →
        (∀ msg ∈ delivered, msg.length ≤ maxLength) ∧
          frames delivered ++ codec.buffer.unread = Read.stream reads ∧
            Stuck codec.buffer.unread := by
  refine ⟨?_, fun reads => ⟨fun abort => runReads_eq_error, fun codec delivered hrun => ?_⟩⟩
  · refine Subrelation.wf ?_ (measure fun b : Buffer => b.readableBytes.toNat).wf
    rintro b' b ⟨msg, hstep⟩
    exact readableBytes_of_onMessageStep hstep
  · obtain ⟨hholds, rfl⟩ := runReads_spec hrun
    rw [hholds.unread_eq]
    exact ⟨fun msg => length_le_of_mem_drain,
      IncrementalDecoder.flatten_drain decoder_recognises _, stuck_drain _⟩

/-! ## Streams of frames -/

/-- A stream of frames decodes to their messages, with what cannot be decoded behind
them left over; the last message must not be empty when nothing is behind it. -/
theorem drain_frames {msgs : List (List UInt8)} {tail : List UInt8}
    (hmax : ∀ msg ∈ msgs, msg.length ≤ maxLength) (htail : Stuck tail)
    (hlast : tail ≠ [] ∨ msgs.getLast? ≠ some []) :
    decoder.drain (frames msgs ++ tail) = (msgs, tail) := by
  refine IncrementalDecoder.drain_flatten (nextMessage_eq_none.mpr htail)
    fun msg later hsuffix => ?_
  have hmem : msg ∈ msgs := hsuffix.subset List.mem_cons_self
  refine nextMessage_frame (hmax msg hmem) ?_
  by_cases hmsg : msg = []
  · right
    rcases hlast with htail | hlast
    · simp [htail]
    · cases later with
      | nil =>
          obtain ⟨before, rfl⟩ := hsuffix
          rw [List.getLast?_concat, hmsg] at hlast
          exact absurd rfl hlast
      | cons m later =>
          apply List.ne_nil_of_length_pos
          rw [List.map_cons, List.flatten_cons, List.length_append, List.length_append,
            length_frame]
          omega
  · exact Or.inl hmsg

/-- A proper prefix of a frame cannot be decoded. -/
theorem stuck_of_prefix_frame {xs msg : List UInt8} (hmax : msg.length ≤ maxLength)
    (hpre : xs <+: frame msg) (hlt : xs.length < (frame msg).length) : Stuck xs := by
  by_cases hheader : xs.length ≤ 4
  · exact Or.inl hheader
  · obtain ⟨ys, hys⟩ := hpre
    unfold maxLength at hmax
    have hann : announced xs = msg.length := by
      rw [← announced_append (by omega) ys, hys]
      have hframe := announced_frame (show msg.length < 2 ^ 32 by omega) []
      rwa [List.append_nil] at hframe
    right; right
    rw [hann, ← length_frame]
    exact hlt

/-- A prefix of a stream of frames is some of the frames and a proper prefix of the
next one. -/
theorem exists_frames_of_prefix {xs : List UInt8} {msgs : List (List UInt8)}
    (hpre : xs <+: frames msgs) :
    ∃ k tail, k ≤ msgs.length ∧ xs = frames (msgs.take k) ++ tail ∧
      (tail = [] ∨ ∃ msg, msgs[k]? = some msg ∧ tail <+: frame msg ∧
        tail.length < (frame msg).length) := by
  induction msgs generalizing xs with
  | nil => exact ⟨0, [], le_rfl, by simpa using hpre, Or.inl rfl⟩
  | cons msg msgs ih =>
      rw [frames_cons] at hpre
      by_cases hlt : xs.length < (frame msg).length
      · have hxs : xs <+: frame msg :=
          List.prefix_of_prefix_length_le hpre (List.prefix_append _ _) hlt.le
        exact ⟨0, xs, Nat.zero_le _, rfl, Or.inr ⟨msg, rfl, hxs, hlt⟩⟩
      · have hfirst : frame msg <+: xs :=
          List.prefix_of_prefix_length_le (List.prefix_append _ _) hpre (by omega)
        obtain ⟨ys, rfl⟩ := hfirst
        obtain ⟨k, tail, hk, rfl, htail⟩ := ih ((List.prefix_append_right_inj _).mp hpre)
        refine ⟨k + 1, tail, by simpa using hk, ?_, by simpa using htail⟩
        rw [List.take_succ_cons, frames_cons, List.append_assoc]

/-- One more message is one more frame. -/
theorem frames_take_succ {msgs : List (List UInt8)} {k : ℕ} {msg : List UInt8}
    (h : msgs[k]? = some msg) :
    frames (msgs.take (k + 1)) = frames (msgs.take k) ++ frame msg := by
  rw [List.take_add_one, h, frames_append]
  simp

/-- Fewer messages are a beginning of the stream. -/
theorem frames_take_mono (msgs : List (List UInt8)) {j k : ℕ} (h : j ≤ k) :
    frames (msgs.take j) <+: frames (msgs.take k) := by
  obtain ⟨later, hlater⟩ := List.take_prefix_take_left (l := msgs) h
  exact ⟨frames later, by rw [← frames_append, hlater]⟩

/-- A proper prefix of a frame completes no message. -/
theorem le_of_frames_take {msgs : List (List UInt8)} {j k : ℕ} {tail : List UInt8}
    (hj : j ≤ msgs.length)
    (htail : tail = [] ∨ ∃ msg, msgs[k]? = some msg ∧ tail <+: frame msg ∧
      tail.length < (frame msg).length)
    (hpre : frames (msgs.take j) <+: frames (msgs.take k) ++ tail) : j ≤ k := by
  by_contra hlt
  have hk : k < msgs.length := by omega
  have hget : msgs[k]? = some msgs[k] := List.getElem?_eq_getElem hk
  have hnext := (frames_take_mono msgs (show k + 1 ≤ j by omega)).trans hpre
  rw [frames_take_succ hget] at hnext
  have hlen := ((List.prefix_append_right_inj _).mp hnext).length_le
  rw [length_frame] at hlen
  rcases htail with rfl | ⟨msg, hmsg, -, hshort⟩
  · simp at hlen
  · rw [hget] at hmsg
    cases hmsg
    rw [length_frame] at hshort
    omega

/-! ## Decoding undoes encoding -/

/-- The run delivers exactly `msgs`, each no later than the read that brings the last
byte of its frame, and leaves nothing. -/
def DeliversOnTime (msgs : List (List UInt8)) (reads : List Read) : Prop :=
  ∀ codec delivered, runReads reads = .ok (codec, delivered) →
    delivered = msgs ∧ codec.buffer.unread = [] ∧
      ∀ first codec' delivered', first <+: reads → runReads first = .ok (codec', delivered') →
        ∀ k ≤ msgs.length, frames (msgs.take k) <+: Read.stream first →
          msgs.take k <+: delivered'

/-- No read ends with the last byte of the frame of an empty message. -/
def NoReadEndsEmpty (msgs : List (List UInt8)) (reads : List Read) : Prop :=
  ∀ first k, first <+: reads → msgs[k]? = some [] →
    Read.stream first ≠ frames (msgs.take (k + 1))

/-- The stream received up to some read decodes to the messages whose frames it
completes, when the read does not end with the frame of an empty message. -/
theorem drain_stream_prefix {msgs : List (List UInt8)} {first reads : List Read}
    (hmax : ∀ msg ∈ msgs, msg.length ≤ maxLength) (hpre : first <+: reads)
    (hstream : Read.stream reads = frames msgs) (hempty : NoReadEndsEmpty msgs reads) :
    ∃ k tail, k ≤ msgs.length ∧ Read.stream first = frames (msgs.take k) ++ tail ∧
      decoder.drain (Read.stream first) = (msgs.take k, tail) ∧
      (tail = [] ∨ ∃ msg, msgs[k]? = some msg ∧ tail <+: frame msg ∧
        tail.length < (frame msg).length) := by
  have hxs := Read.stream_prefix hpre
  rw [hstream] at hxs
  obtain ⟨k, tail, hk, hfirst, htail⟩ := exists_frames_of_prefix hxs
  refine ⟨k, tail, hk, hfirst, ?_, htail⟩
  have hstuck : Stuck tail := by
    rcases htail with rfl | ⟨msg, hmsg, htailpre, hlt⟩
    · exact Or.inl (by simp)
    · exact stuck_of_prefix_frame (hmax msg (List.mem_of_getElem? hmsg)) htailpre hlt
  rw [hfirst]
  refine drain_frames (fun msg h => hmax msg (List.mem_of_mem_take h)) hstuck ?_
  by_cases hnil : tail = []
  · right
    intro hlast
    -- the read would end with the frame of the empty message at position `k - 1`
    subst hnil
    obtain ⟨k, rfl⟩ : ∃ n, k = n + 1 := by
      cases k with
      | zero => simp at hlast
      | succ k => exact ⟨k, rfl⟩
    have hget : msgs[k]? = some [] := by
      rw [List.getLast?_take, if_neg (by omega), Nat.add_sub_cancel] at hlast
      rw [List.getElem?_eq_getElem (show k < msgs.length by omega)] at hlast ⊢
      simpa using hlast
    exact hempty first k hpre hget (by rw [hfirst, List.append_nil])
  · exact Or.inl hnil

/-- **Decoding undoes encoding on time, exactly when no read ends with the frame of an
empty message.**  The loop condition asks for more than a header, so the frame of the
empty message is taken off only once a byte follows it. -/
theorem deliversOnTime_iff {msgs : List (List UInt8)} {reads : List Read} {codec : Codec}
    {delivered : List (List UInt8)}
    (hmsgs : ∀ msg ∈ msgs, 0 ∉ msg ∧ msg.length ≤ maxLength)
    (hstream : Read.stream reads = frames msgs)
    (hrun : runReads reads = .ok (codec, delivered)) :
    (∀ msg ∈ msgs, encodeFrame msg = .ok (frame msg)) ∧
      (DeliversOnTime msgs reads ↔ NoReadEndsEmpty msgs reads) := by
  have hmax : ∀ msg ∈ msgs, msg.length ≤ maxLength := fun msg h => (hmsgs msg h).2
  refine ⟨fun msg h => encodeFrame_eq (hmsgs msg h).1 (hmsgs msg h).2, ?_, ?_⟩
  · intro hontime first k hpre hget hfirst
    obtain ⟨-, -, hdeadline⟩ := hontime codec delivered hrun
    obtain ⟨codec', hrun', -⟩ := runReads_prefix hpre hrun
    have hk : k < msgs.length := (List.getElem?_eq_some_iff.mp hget).1
    have hdelivered := hdeadline first codec' _ hpre hrun' (k + 1) hk (by rw [hfirst])
    -- what is left of the frame is a header, which the loop does not look at
    have hheader : Stuck (frame []) := Or.inl (by simp)
    have hne : frame [] ≠ [] := List.ne_nil_of_length_pos (by simp)
    rw [hfirst, frames_take_succ hget,
      drain_frames (fun msg h => hmax msg (List.mem_of_mem_take h)) hheader
        (Or.inl hne)] at hdelivered
    have hlen := hdelivered.length_le
    rw [List.length_take, List.length_take] at hlen
    omega
  · intro hempty codec₁ delivered₁ hrun₁
    obtain ⟨hholds, rfl⟩ := runReads_spec hrun₁
    obtain ⟨n, tail, -, hall, hdrain, htail⟩ :=
      drain_stream_prefix hmax List.prefix_rfl hstream hempty
    -- the whole stream completes every message
    have hn : msgs.length ≤ n := by
      refine le_of_frames_take le_rfl htail ?_
      rw [← hall, hstream, List.take_length]
    rw [List.take_of_length_le hn] at hall hdrain
    have hnil : tail = [] := by
      rwa [hstream, List.self_eq_append_right] at hall
    subst hnil
    rw [hholds.unread_eq, hdrain]
    refine ⟨rfl, rfl, fun first codec' delivered' hpre hrun' k hk hframes => ?_⟩
    obtain ⟨-, rfl⟩ := runReads_spec hrun'
    obtain ⟨j, tail, -, hfirst, hdrain', htail'⟩ :=
      drain_stream_prefix hmax hpre hstream hempty
    rw [hfirst] at hframes
    rw [hdrain']
    exact List.take_prefix_take_left (le_of_frames_take hk htail' hframes)

theorem deliversOnTime_iff_cutReads :
    encodeFrame [7] = .ok (frame [7]) ∧
      (DeliversOnTime [[7]] cutReads ↔ NoReadEndsEmpty [[7]] cutReads) := by
  obtain ⟨⟨codec, delivered⟩, hrun⟩ :=
    AbortingRun.exists_eq_ok (x := runReads cutReads) (by decide +kernel)
  obtain ⟨hencode, hiff⟩ :=
    @deliversOnTime_iff [[7]] cutReads codec delivered (by decide) (by decide +kernel) hrun
  exact ⟨hencode [7] (by decide), hiff⟩

/-- The frame of the empty message, in one read. -/
def emptyReads : List Read := [Read.full [0, 0, 0, 0] (by decide)]

/-- The frame of the empty message stays in the buffer. -/
theorem not_deliversOnTime_emptyReads :
    (∀ msg ∈ [([] : List UInt8)], 0 ∉ msg ∧ msg.length ≤ maxLength) ∧
      Read.stream emptyReads = frames [[]] ∧ encodeFrame [] = .ok (frame []) ∧
        (∃ codec delivered, runReads emptyReads = .ok (codec, delivered)) ∧
          ¬DeliversOnTime [[]] emptyReads := by
  have hnone : (runReads emptyReads).map Prod.snd = .ok [] := by decide +kernel
  obtain ⟨⟨codec, delivered⟩, hrun, hempty⟩ := AbortingRun.exists_of_map_eq_ok hnone
  refine ⟨by decide, by decide +kernel, by decide +kernel, ⟨codec, delivered, hrun⟩,
    fun hontime => ?_⟩
  obtain ⟨hdelivered, -, -⟩ := hontime codec delivered hrun
  exact absurd (hdelivered.symm.trans hempty) (by decide)

/-! ## The backlog -/

/-- After every read the codec holds less than the longest frame. -/
def BacklogBounded (reads : List Read) : Prop :=
  ∀ first codec delivered, first <+: reads → runReads first = .ok (codec, delivered) →
    codec.buffer.readableBytes < sizeOfInt (kHeaderLen + kMaxMessageSize)

/-- Where the stream gets to a header that announces more than `kMaxMessageSize`, what
it has from there on is less than the longest frame. -/
def OversizeTailShort (stream : List UInt8) : Prop :=
  ∀ msgs tail, stream = frames msgs ++ tail → (∀ msg ∈ msgs, msg.length ≤ maxLength) →
    4 ≤ tail.length → maxLength < announced tail → tail.length < 4 + maxLength

/-- The comparison with a frame of the largest size is one of lengths. -/
theorem readableBytes_lt_iff {b : Buffer} {q : List UInt8} (h : b.Holds q) :
    b.readableBytes < sizeOfInt (kHeaderLen + kMaxMessageSize) ↔
      q.length < 4 + maxLength := by
  rw [UInt64.lt_iff_toNat_lt, ← h.length_eq]
  rfl

/-- **The backlog is bounded exactly when no rejected header is followed by a frame's
worth of input.**  A header that announces too much ends the loop and stays where it
is, so everything that follows it is kept. -/
theorem backlogBounded_iff {reads : List Read} {codec : Codec}
    {delivered : List (List UInt8)} (hrun : runReads reads = .ok (codec, delivered)) :
    BacklogBounded reads ↔ OversizeTailShort (Read.stream reads) := by
  constructor
  · intro hbounded msgs tail hstream hmax hfour hover
    have hlt := hbounded reads codec delivered List.prefix_rfl hrun
    obtain ⟨hholds, -⟩ := runReads_spec hrun
    rw [readableBytes_lt_iff hholds, hstream] at hlt
    have hne : tail ≠ [] := List.ne_nil_of_length_pos (by omega)
    rwa [drain_frames hmax (Or.inr (Or.inl hover)) (Or.inl hne)] at hlt
  · intro hshort first codec' delivered' hpre hrun'
    obtain ⟨hholds, -⟩ := runReads_spec hrun'
    rw [readableBytes_lt_iff hholds]
    obtain ⟨later, hlater⟩ := Read.stream_prefix hpre
    have hsplit : frames (decoder.drain (Read.stream first)).1 ++
        (decoder.drain (Read.stream first)).2 = Read.stream first :=
      IncrementalDecoder.flatten_drain decoder_recognises _
    have hmsgs : ∀ msg ∈ (decoder.drain (Read.stream first)).1, msg.length ≤ maxLength :=
      fun msg => length_le_of_mem_drain
    have hstuck : Stuck (decoder.drain (Read.stream first)).2 := stuck_drain _
    generalize (decoder.drain (Read.stream first)).1 = msgs at hsplit hmsgs
    generalize (decoder.drain (Read.stream first)).2 = rest at hsplit hstuck ⊢
    by_cases hover : 4 ≤ rest.length ∧ maxLength < announced rest
    · -- the header has been rejected, and what came behind it is part of the tail
      have htail := hshort msgs (rest ++ later)
        (by rw [← hlater, ← hsplit, List.append_assoc]) hmsgs
        (by rw [List.length_append]; omega)
        (by rw [announced_append hover.1]; exact hover.2)
      rw [List.length_append] at htail
      omega
    · have hmax : 4 ≤ maxLength := by decide
      rcases hstuck with hheader | hannounced | hshort
      · omega
      · omega
      · omega

/-- A rejected header and the frame of a message behind it. -/
def rejectedReads : List Read :=
  [Read.full [0, 1, 0, 0, 5] (by decide), Read.full [0, 0, 0, 1, 7] (by decide)]

theorem backlogBounded_iff_rejectedReads :
    BacklogBounded rejectedReads ↔ OversizeTailShort (Read.stream rejectedReads) := by
  obtain ⟨⟨codec, delivered⟩, hrun⟩ :=
    AbortingRun.exists_eq_ok (x := runReads rejectedReads) (by decide +kernel)
  exact backlogBounded_iff hrun

/-- A header that is negative as an `int`, with 4096 bytes behind it. -/
def floodReads : List Read :=
  [Read.full (255 :: 255 :: 255 :: 255 :: List.replicate 4096 0) (by decide +kernel)]

theorem not_backlogBounded_floodReads :
    (∃ codec delivered, runReads floodReads = .ok (codec, delivered)) ∧
      ¬BacklogBounded floodReads := by
  have hreadable : (runReads floodReads).map (fun state => state.1.buffer.readableBytes) =
      .ok 4100 := by decide +kernel
  obtain ⟨⟨codec, delivered⟩, hrun, hbacklog⟩ := AbortingRun.exists_of_map_eq_ok hreadable
  refine ⟨⟨codec, delivered, hrun⟩, fun hbounded => ?_⟩
  have hlt := hbounded floodReads codec delivered List.prefix_rfl hrun
  change codec.buffer.readableBytes = 4100 at hbacklog
  rw [hbacklog] at hlt
  exact absurd hlt (by decide)

end Codec

end LearnUv
