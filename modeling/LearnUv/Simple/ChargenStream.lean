import LearnUv.Simple.Chargen

/-!
# The stream of `chargen`

A write is as long as the pointer `message`, not as the message it points to, so a client
gets the first eight bytes again and again.  That all clients are written to from one buffer
does no harm: what is copied into it is always the same.

Before anything of a second write leaves, a client has been sent a part of the first eight
bytes of the message, which is the beginning of it (`Starting`).  The next write begins with
the same eight bytes again, so with the first byte of it the stream is no prefix of the
repeated message any more: the message has more than eight bytes, and its ninth is not its
first.

## Main Definitions

* `Streams` — every client has been sent a prefix of the repeated message
* `FirstOnly` — nothing but its first write is sent to a client

## Main Results

* `streams_iff` — clients get the message throughout a run exactly as long as they get no
  more than the first write
-/

namespace LearnUv.Chargen

open DeferredWrites

/-- The message, `n` times. -/
def repeated (n : ℕ) : List UInt8 := (List.replicate n message).flatten

/-- What was sent to each client is the beginning of the repeated message. -/
def Streams (s : Server) : Prop :=
  ∀ c ∈ s.connections, ∃ n, c.transport.out <+: repeated n

/-- What is sent is of the first write to the client. -/
def FirstOnly (s : Server) : Event → Prop
  | .flush i k => ∀ c ∈ s.connections[i]?, 0 < k → c.transport.pending ≠ [] →
      c.transport.out.length < sizeofMessage.toNat
  | _ => True

instance (s : Server) (event : Event) : Decidable (FirstOnly s event) :=
  match event with
  | .flush i k => inferInstanceAs (Decidable (∀ c ∈ s.connections[i]?, 0 < k →
      c.transport.pending ≠ [] → c.transport.out.length < sizeofMessage.toNat))
  | .connection _ => inferInstanceAs (Decidable True)
  | .writeEnd _ _ => inferInstanceAs (Decidable True)
  | .timeout => inferInstanceAs (Decidable True)

/-- The client has been sent the first bytes of the message, and of the write that is queued
what is missing of eight. -/
structure Connection.Started (c : Connection) (sent : ℕ) : Prop where
  sent_le : sent ≤ 8
  out : c.transport.out = message.take sent
  pending : c.transport.pending = [] ∧ (c.closing = false → sent = 8) ∨
    c.transport.pending = [(sent % 8, 8 - sent % 8)]

/-- All clients are in their first write, or wait for their second one. -/
structure Starting (s : Server) : Prop where
  waits : ∀ c ∈ s.connections, c.Waits
  started : ∀ c ∈ s.connections, ∃ sent, c.Started sent
  globalBuf : s.connections = [] ∨ cStr message <+: s.globals.globalBuf.bytes

theorem Starting.start : Starting start := by
  refine ⟨?_, ?_, Or.inl rfl⟩ <;> simp [Chargen.start]

/-- What was sent of the first write is the beginning of the message. -/
theorem Starting.streams {s : Server} (h : Starting s) : Streams s := by
  intro c hc
  obtain ⟨sent, hstarted⟩ := h.started c hc
  refine ⟨1, ?_⟩
  rw [hstarted.out, show repeated 1 = message from rfl]
  exact List.take_prefix _ _

/-- The memory begins with the message. -/
theorem take_globalBuf {memory : List UInt8} (h : cStr message <+: memory) {n : ℕ} (hn : n ≤ 12) :
    memory.take n = message.take n := by
  obtain ⟨rest, rfl⟩ := h
  have hlength : message.length = 12 := rfl
  rw [cStr, List.append_assoc, List.take_append_of_le_length (by omega)]

/-- The message goes on with an `r`, and not with an `h`. -/
theorem not_prefix_repeated {out : List UInt8} (h : out[8]? = some 104) (n : ℕ) :
    ¬out <+: repeated n := by
  rintro ⟨rest, hrest⟩
  have hget : (repeated n)[8]? = some 104 := by
    obtain ⟨hlt, -⟩ := List.getElem?_eq_some_iff.mp h
    rw [← hrest, List.getElem?_append_left hlt, h]
  cases n with
  | zero => cases hget
  | succ n =>
      rw [repeated, List.replicate_succ, List.flatten_cons,
        List.getElem?_append_left (by decide)] at hget
      exact absurd hget (by decide)

namespace Connection.Started

variable {c : Connection} {sent : ℕ} {memory : List UInt8}

theorem length_out (h : c.Started sent) : c.transport.out.length = sent := by
  have hlength : message.length = 12 := rfl
  have hle := h.sent_le
  rw [h.out, List.length_take, hlength]
  omega

/-- **A part of the first write** is sent. -/
theorem flush (h : c.Started sent) (hmemory : cStr message <+: memory) (k : ℕ)
    (hfirst : 0 < k → c.transport.pending ≠ [] → c.transport.out.length < sizeofMessage.toNat) :
    ∃ sent', (c.flush memory k).Started sent' := by
  have hsize : sizeofMessage.toNat = 8 := rfl
  rw [hsize, h.length_out] at hfirst
  rcases h.pending with ⟨hnil, hsent⟩ | hpending
  · refine ⟨sent, h.sent_le, ?_, Or.inl ⟨?_, hsent⟩⟩
    · simp [Connection.flush, Transport.flush, hnil, h.out]
    · simp [Connection.flush, Transport.flush, hnil]
  · rcases Nat.eq_zero_or_pos k with rfl | hk
    · have hpos : ¬8 - sent % 8 ≤ 0 := by omega
      refine ⟨sent, h.sent_le, ?_, Or.inr ?_⟩
      · simp [Connection.flush, Transport.flush, hpending, h.out]
      · simp [Connection.flush, Transport.flush, hpending, hpos]
    · have hlt : sent < 8 := hfirst hk (by simp [hpending])
      rw [Nat.mod_eq_of_lt hlt] at hpending
      have hout : (c.flush memory k).transport.out = message.take (sent + min k (8 - sent)) := by
        simp only [Connection.flush, Transport.flush, hpending, h.out]
        rw [← take_globalBuf hmemory (by omega), ← List.take_add,
          take_globalBuf hmemory (by omega)]
      refine ⟨sent + min k (8 - sent), by omega, hout, ?_⟩
      by_cases hall : 8 - sent ≤ k
      · refine Or.inl ⟨?_, fun _ => by omega⟩
        simp [Connection.flush, Transport.flush, hpending, hall]
      · have hmin : min k (8 - sent) = k := by omega
        refine Or.inr ?_
        rw [hmin, Nat.mod_eq_of_lt (by omega)]
        simp [Connection.flush, Transport.flush, hpending, hall]
        omega

/-- **A part of the second write** is not what comes next in the message. -/
theorem not_prefix_flush (h : c.Started sent) (hmemory : cStr message <+: memory) {k : ℕ}
    (hk : 0 < k) (hpending : c.transport.pending ≠ []) (hout : 8 ≤ c.transport.out.length)
    (n : ℕ) : ¬(c.flush memory k).transport.out <+: repeated n := by
  rw [h.length_out] at hout
  obtain rfl : sent = 8 := Nat.le_antisymm h.sent_le hout
  have hqueue := h.pending.resolve_left fun hnil => hpending hnil.1
  have hflush : (c.flush memory k).transport.out =
      message.take 8 ++ memory.take (min k 8) := by
    simp [Connection.flush, Transport.flush, hqueue, h.out]
  have hlength : (message.take 8).length = 8 := rfl
  refine not_prefix_repeated ?_ n
  rw [hflush, take_globalBuf hmemory (by omega),
    List.getElem?_append_right hlength.le, hlength]
  obtain ⟨j, hj⟩ : ∃ j, min k 8 = j + 1 := ⟨min k 8 - 1, by omega⟩
  rw [hj]
  rfl

end Connection.Started

namespace Starting

variable {s t : Server} {event : Event}

/-- Where there is a connection, the message is in the buffer. -/
theorem at_connection (h : Starting s) {i : ℕ} {c : Connection} (hc : s.connections[i]? = some c) :
    cStr message <+: s.globals.globalBuf.bytes ∧ ∃ sent, c.Started sent :=
  have hmem := List.mem_of_getElem? hc
  ⟨h.globalBuf.resolve_left (List.ne_nil_of_mem hmem), h.started c hmem⟩

/-- A write that is over is followed by one of the same eight bytes, or by none. -/
theorem started_written {c : Connection} {sent : ℕ} (h : c.Started sent)
    (hopen : c.closing = false) {status : Int32}
    (hsent : 0 ≤ status → c.transport.pending = []) : (c.written status).Started sent := by
  unfold Connection.written
  split
  · exact ⟨h.sent_le, h.out, Or.inl ⟨rfl, by simp [Connection.failed]⟩⟩
  · next hstatus =>
      have hnil := hsent (Int32.not_lt.mp hstatus)
      obtain rfl : sent = 8 := by
        rcases h.pending with ⟨-, hall⟩ | hpending
        · exact hall hopen
        · rw [hnil] at hpending
          cases hpending
      exact ⟨h.sent_le, h.out, Or.inr rfl⟩

theorem started_fresh : Connection.fresh.Started 0 := ⟨by decide, rfl, Or.inr rfl⟩

/-- As long as nothing of a second write is sent, all clients are in their first one. -/
theorem change (h : Starting s) (hchange : Change s event t) (hfirst : FirstOnly s event) :
    Starting t := by
  have hwaits := hchange.waits h.waits
  cases hchange with
  | refused results => exact h
  | accepted results hbuf =>
      refine ⟨hwaits, List.forall_mem_append.mpr ⟨h.started, ?_⟩, Or.inr hbuf⟩
      exact List.forall_mem_singleton.mpr ⟨0, started_fresh⟩
  | @flush i k c hc hopen =>
      obtain ⟨hbuf, sent, hstarted⟩ := h.at_connection hc
      exact ⟨hwaits, forall_mem_set h.started (hstarted.flush hbuf k (hfirst c hc)), Or.inr hbuf⟩
  | @writeEnd i status c hc hopen hsent globalBuf hbuf =>
      obtain ⟨-, sent, hstarted⟩ := h.at_connection hc
      exact ⟨hwaits, forall_mem_set h.started ⟨sent, started_written hstarted hopen hsent⟩,
        Or.inr hbuf⟩
  | timeout => exact ⟨h.waits, h.started, h.globalBuf⟩

/-- **What is sent of a second write** is not of the message. -/
theorem firstOnly (h : Starting s) (hchange : Change s event t) (hstreams : Streams t) :
    FirstOnly s event := by
  cases hchange with
  | refused results => trivial
  | accepted results hbuf => trivial
  | @flush i k c hc hopen =>
      intro d hd hk hpending
      obtain rfl := Option.some.inj (hc.symm.trans hd)
      obtain ⟨hbuf, sent, hstarted⟩ := h.at_connection hc
      by_contra hlong
      obtain ⟨n, hpre⟩ := hstreams (c.flush s.globals.globalBuf.bytes k)
        (List.mem_set (List.getElem?_eq_some_iff.mp hc).1 _)
      exact hstarted.not_prefix_flush hbuf hk hpending (Nat.not_lt.mp hlong) n hpre
  | writeEnd status hc hopen hsent hbuf => trivial
  | timeout => trivial

end Starting

/-- **Clients get the message** throughout a run exactly when nothing is sent to a client
but its first write. -/
theorem streams_iff {history : List Event} (h : Delivered history) :
    AbortingRun.Always step Streams start history ↔
      AbortingRun.EachStep step FirstOnly start history := by
  refine AbortingRun.always_iff_eachStep (I := Starting) ?_ ?_ ?_ ?_ Starting.start h
  · exact fun s hs => hs.streams
  · exact fun s event t hs hevent hstep hfirst =>
      hs.change (change_of_step hs.waits hevent hstep) hfirst
  · exact fun s event t hs hevent hstep hstreams =>
      hs.firstOnly (change_of_step hs.waits hevent hstep) hstreams
  · intro s event abort hs hevent hstep
    cases event with
    | connection results => trivial
    | flush i k =>
        obtain ⟨c, hc, -⟩ := hevent
        rw [Option.mem_def] at hc
        rw [step, hc] at hstep
        cases hstep
    | writeEnd i status => trivial
    | timeout => trivial

/-- Two clients, which get parts of their first write in turn. -/
def inTurn : List Event :=
  [.connection ⟨0, 0, 0, true, 0⟩, .flush 0 3, .connection ⟨0, 0, 0, false, 0⟩, .flush 1 8,
    .flush 0 100, .writeEnd 1 0]

theorem streams_iff_inTurn : AbortingRun.Always step Streams start inTurn :=
  (streams_iff (AbortingRun.eachStep_of_runEnabled (by decide +kernel))).mpr
    (AbortingRun.eachStep_of_runEnabled (by decide +kernel))

/-- One client, which gets its second write. -/
def twoWrites : List Event :=
  [.connection ⟨0, 0, 0, true, 0⟩, .flush 0 8, .writeEnd 0 0, .flush 0 8]

/-- It gets `"hello wohello wo"`. -/
theorem not_streams_twoWrites :
    Delivered twoWrites ∧ ¬AbortingRun.Always step Streams start twoWrites := by
  refine ⟨AbortingRun.eachStep_of_runEnabled (by decide +kernel), ?_⟩
  intro halways
  obtain ⟨s, hs, hout⟩ : ∃ s, AbortingRun.run step start twoWrites = .ok s ∧
      ∃ c ∈ s.connections, c.transport.out[8]? = some 104 :=
    ⟨_, rfl, _, List.mem_singleton.mpr rfl, by decide +kernel⟩
  obtain ⟨c, hc, hnine⟩ := hout
  obtain ⟨n, hpre⟩ := AbortingRun.always_iff.mp halways twoWrites s List.prefix_rfl hs c hc
  exact not_prefix_repeated hnine n hpre

end LearnUv.Chargen
