import LearnUv.Chat.CodecStream

/-!
# The storage of the decoder

The vector of the codec's buffer never shrinks, and it grows only in `append`, to the
writer index and what is appended.  It grows only when that does not fit into the whole of
the vector together with what is unread, so that the size it grows to is bounded by what is
unread and twice what is appended; where the writer index was does not matter.

On a stream of valid frames less than a frame is unread before each read, which bounds the
storage over runs of any length.

A read that has failed would take bytes off the vector again.  The streams here are those of
reads with data, so nothing does.

## Main Definitions

* `StorageBounded` — what is promised of the storage at every time of a run

## Main Results

* `Buffer.Holds.length_append_le` — one `append`
* `storageBounded_of_valid` — the storage stays bounded on valid traffic
-/

namespace LearnUv

/-! ## One `append` -/

/-- **What an `append` makes of the storage**: it stays as long as it is, or it grows to at
most what is unread and twice what is appended. -/
theorem Buffer.Holds.length_append_le {b b' : Buffer} {q data : List UInt8} {len : UInt64}
    (h : b.Holds q) (hdata : len.toNat ≤ data.length) (hlen : len.toNat ≤ ptrdiffMax)
    (happend : b.append data len = .ok b') :
    b'.buffer_.bytes.length ≤ max b.buffer_.bytes.length (q.length + 2 * len.toNat) := by
  by_cases hfits : len ≤ b.writeableBytes
  · obtain ⟨u, hu, -, -, hlength⟩ := h.append_of_fits hdata hfits
    obtain rfl := AbortingRun.ok_unique hu happend
    rw [hlength]
    exact le_max_left _ _
  · by_cases hroom : b.writeableBytes + b.prependableBytes < len
    · by_cases hsize : b.writerIndex_.toNat + len.toNat ≤ ptrdiffMax
      · obtain ⟨u, hu, -, -, hlength⟩ := h.append_of_grows hdata hroom hsize
        obtain rfl := AbortingRun.ok_unique hu happend
        -- the whole vector is shorter than what is unread and what is appended
        have hreader := h.wf.toNat_reader_le
        have hwriter := h.wf.toNat_writer_le
        have hunread := h.length_eq_sub
        rw [UInt64.lt_iff_toNat_lt, h.wf.toNat_room] at hroom
        rw [hlength]
        exact le_max_of_le_right (by omega)
      · rw [append_of_outgrows h.wf ⟨hroom, by omega⟩ hlen] at happend
        cases happend
    · rw [append_of_movesData h.wf ⟨UInt64.not_le.mp hfits, UInt64.not_lt.mp hroom⟩] at happend
      cases happend

/-- `retrieve` moves an index and leaves the storage. -/
theorem Buffer.buffer_of_retrieve {b b' : Buffer} {len : UInt64}
    (h : b.retrieve len = .ok b') : b'.buffer_ = b.buffer_ := by
  rw [retrieve, AbortingRun.bind_eq_ok] at h
  obtain ⟨-, -, h⟩ := h
  split at h
  · cases h
    rfl
  · cases h
    rfl

/-- So does `retrieveAsString`, -/
theorem Buffer.buffer_of_retrieveAsString {b b' : Buffer} {len : UInt64} {ret : List UInt8}
    (h : b.retrieveAsString len = .ok (ret, b')) : b'.buffer_ = b.buffer_ := by
  rw [retrieveAsString, AbortingRun.bind_eq_ok] at h
  obtain ⟨_, -, h⟩ := h
  obtain ⟨_, -, h⟩ := AbortingRun.bind_eq_ok.mp h
  obtain ⟨u, hretrieve, h⟩ := AbortingRun.bind_eq_ok.mp h
  cases h
  exact buffer_of_retrieve hretrieve

namespace Codec

/-! ## The loop takes nothing from the storage -/

/-- an iteration of the loop, -/
theorem buffer_of_onMessageStep {b b' : Buffer} {msg : List UInt8}
    (h : onMessageStep b = .ok (some (msg, b'))) : b'.buffer_ = b.buffer_ := by
  obtain ⟨len, headless, hheader, hpayload⟩ := exists_of_onMessageStep h
  rw [Buffer.buffer_of_retrieveAsString hpayload, Buffer.buffer_of_retrieve hheader]

/-- and the loop: only `append` changes the storage. -/
theorem buffer_of_onMessage {σ : Type} {cb_ : List UInt8 → σ → Exec σ} {b b' : Buffer}
    {s s' : σ} (h : onMessage cb_ b s = .ok (b', s')) : b'.buffer_ = b.buffer_ := by
  fun_induction onMessage cb_ b s with
  | case1 b s abort hstep => cases h
  | case2 b s hstep =>
      cases h
      rfl
  | case3 b s msg b₁ hstep ih =>
      obtain ⟨t, -, h⟩ := AbortingRun.bind_eq_ok.mp h
      rw [ih t h, buffer_of_onMessageStep hstep]

/-- So a read changes it only where it is appended. -/
theorem length_onUvRead_le {codec codec' : Codec} {q : List UInt8}
    {s s' : List (List UInt8)} (h : codec.buffer.Holds q) (rd : Read)
    (hread : onUvRead deliver codec rd.nread rd.base s = .ok (codec', s')) :
    codec'.buffer.buffer_.bytes.length ≤
      max codec.buffer.buffer_.bytes.length (q.length + 2 * rd.nread.toNat) := by
  obtain ⟨b, happend, hread⟩ := AbortingRun.bind_eq_ok.mp hread
  obtain ⟨⟨b', t⟩, hloop, hread⟩ := AbortingRun.bind_eq_ok.mp hread
  cases hread
  rw [buffer_of_onMessage hloop]
  exact h.length_append_le rd.nread_le rd.nread_le_max happend

/-! ## Valid traffic -/

/-- Whole frames leave nothing over, or the header of an empty message. -/
theorem length_drain_frames_le {msgs : List (List UInt8)}
    (hmax : ∀ msg ∈ msgs, msg.length ≤ maxLength) :
    (decoder.drain (frames msgs)).2.length ≤ 4 := by
  by_cases hlast : msgs.getLast? = some []
  · -- the loop does not look at a header with nothing behind it
    obtain ⟨before, rfl⟩ := List.getLast?_eq_some_iff.mp hlast
    have hheader : Stuck (frame []) := Or.inl (by simp)
    have hne : frame [] ≠ [] := List.ne_nil_of_length_pos (by simp)
    have hdrain := drain_frames (fun msg h => hmax msg (List.mem_append_left _ h)) hheader
      (Or.inl hne)
    rw [frames_append, frames_cons, frames_nil, List.append_nil, hdrain]
    simp
  · have hdrain := drain_frames hmax (Or.inl (Nat.zero_le 4) : Stuck []) (Or.inr hlast)
    rw [List.append_nil] at hdrain
    simp [hdrain]

/-- **Less than a frame is left over** of the beginning of a stream of frames. -/
theorem length_drain_lt {xs : List UInt8} {msgs : List (List UInt8)}
    (hmax : ∀ msg ∈ msgs, msg.length ≤ maxLength) (hpre : xs <+: frames msgs) :
    (decoder.drain xs).2.length < 4 + maxLength := by
  obtain ⟨k, tail, -, rfl, htail⟩ := exists_frames_of_prefix hpre
  have hmsgs : ∀ msg ∈ msgs.take k, msg.length ≤ maxLength :=
    fun msg h => hmax msg (List.mem_of_mem_take h)
  rcases eq_or_ne tail [] with rfl | hne
  · have hle := length_drain_frames_le hmsgs
    have hpos : 0 < maxLength := by decide
    rw [List.append_nil]
    omega
  · obtain ⟨msg, hmsg, htailpre, hlt⟩ := htail.resolve_left hne
    have hmsgmax := hmax msg (List.mem_of_getElem? hmsg)
    rw [drain_frames hmsgs (stuck_of_prefix_frame hmsgmax htailpre hlt) (Or.inl hne)]
    rw [length_frame] at hlt
    show tail.length < _
    omega

/-! ## Whole runs -/

/-- At every time of the run the storage is as long as at the start, or bounded by two
reads of `N` bytes and the longest frame. -/
def StorageBounded (N : ℕ) (reads : List Read) : Prop :=
  ∀ first codec delivered, first <+: reads → runReads first = .ok (codec, delivered) →
    codec.buffer.buffer_.size.toNat ≤
      max 8192 (2 * N + (sizeOfInt (kHeaderLen + kMaxMessageSize)).toNat)

/-- **The storage along a run** of valid traffic, as far as the run has come. -/
theorem length_le_of_runReads {N : ℕ} {msgs : List (List UInt8)}
    (hmax : ∀ msg ∈ msgs, msg.length ≤ maxLength) {reads : List Read} {codec : Codec}
    {delivered : List (List UInt8)} (hsize : ∀ rd ∈ reads, rd.nread.toNat ≤ N)
    (hstream : Read.stream reads <+: frames msgs)
    (hrun : runReads reads = .ok (codec, delivered)) :
    codec.buffer.buffer_.bytes.length ≤ max 8192 (2 * N + (4 + maxLength)) := by
  refine AbortingRun.run_induction readStep (P := fun history state =>
    history <+: reads → state.1.buffer.buffer_.bytes.length ≤ max 8192 (2 * N + (4 + maxLength)))
    ?_ ?_ hrun List.prefix_rfl
  · intro _
    have hnew : new.buffer.buffer_.bytes.length = 8192 := List.length_replicate
    exact le_max_of_le_left hnew.le
  · rintro history ⟨codec, ds⟩ rd ⟨codec', ds'⟩ hhistory ih hstep hpre
    have hbefore : history <+: reads := (List.prefix_append _ _).trans hpre
    obtain ⟨hholds, -⟩ := runReads_spec hhistory
    have hunread := length_drain_lt hmax ((Read.stream_prefix hbefore).trans hstream)
    have hgrown := length_onUvRead_le hholds rd hstep
    have hnow : codec.buffer.buffer_.bytes.length ≤ _ := ih hbefore
    have hread := hsize rd (hpre.subset List.mem_concat_self)
    show codec'.buffer.buffer_.bytes.length ≤ _
    omega

/-- **The storage stays bounded on valid traffic**, whatever the reads are, at every time
that a run comes to. -/
theorem storageBounded_of_valid {N : ℕ} {reads : List Read} {msgs : List (List UInt8)}
    (hsize : ∀ rd ∈ reads, rd.nread.toNat ≤ N)
    (hmax : ∀ msg ∈ msgs, msg.length ≤ maxLength)
    (hstream : Read.stream reads <+: frames msgs) : StorageBounded N reads := by
  intro first codec delivered hpre hrun
  have hlength := length_le_of_runReads hmax (fun rd h => hsize rd (hpre.subset h))
    ((Read.stream_prefix hpre).trans hstream) hrun
  rw [CharVector.toNat_size]
  exact hlength

theorem storageBounded_of_valid_cutReads : StorageBounded 3 cutReads :=
  @storageBounded_of_valid 3 cutReads [[7]] (by decide +kernel) (by decide) (by decide +kernel)

end Codec

end LearnUv
