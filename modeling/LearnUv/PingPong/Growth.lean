import LearnUv.PingPong.Conservation

/-!
# How the bytes in transit grow

A read of the client that does not fill its buffer is answered by the whole buffer, so it
adds what is missing to the bytes in transit.  Nothing ever takes bytes out, so the two
programs go on for as long as they are connected.  `bytesRead` counts what was added as well,
each time that it comes round; it is a `ssize_t`, and counts modulo `2 ^ 64`.

As in `Conservation`, the calls into libuv succeed and the streams stay open: the runs are those
before the timer fires.

## Main Definitions

* `Event.added` — what a read adds to the bytes in transit
* `Event.bytes` — what a read of the client brings

## Main Results

* `inTransit_of_reaches` — the bytes in transit are the block and what was added
* `exists_read` — one of the two sides can read
-/

namespace LearnUv.PingPong.Session

variable {blockSize inputBufSize : Int32}

/-- What the answer to a read has more than the read. -/
def Event.added : Event → ℕ
  | .connected => 0
  | .clientRead memory nread => if nread = 0 then 0 else memory.length - nread
  | .serverRead _ => 0
  | .otherRead _ => 0

/-- What a read of the client brings. -/
def Event.bytes : Event → ℕ
  | .connected => 0
  | .clientRead _ nread => nread
  | .serverRead _ => 0
  | .otherRead _ => 0

/-- The bytes in transit, and those the client has counted. -/
structure Counted (blockSize : Int32) (history : List Event) (s : Session inputBufSize) :
    Prop where
  inTransit : s.toServer.length + s.toClient.length =
    (if s.connected then intLen blockSize else 0) + (history.map Event.added).sum
  bytesRead : s.connection.bytesRead = Int64.ofNat (history.map Event.bytes).sum

/-- A read of the client is counted. -/
theorem bytesRead_of_step {s t : Session inputBufSize} {memory : List UInt8} {nread : ℕ}
    (hstep : s.step blockSize (.clientRead memory nread) = .ok t) :
    t.connection.bytesRead = s.connection.bytesRead + Int64.ofNat nread := by
  obtain ⟨array, -, hstep⟩ := AbortingRun.bind_eq_ok.mp hstep
  obtain ⟨⟨connection, reaction⟩, hread, ht⟩ := AbortingRun.bind_eq_ok.mp hstep
  cases ht
  rcases Nat.eq_zero_or_pos nread with rfl | hpos
  · cases hread
    exact (Int64.add_zero _).symm
  · rw [onReadData, if_neg (by omega), if_neg (by omega)] at hread
    cases hread
    rw [Int64.ofInt_eq_ofNat]

namespace Counted

variable {history : List Event} {s t : Session inputBufSize}

/-- Nothing is in transit before the connect. -/
theorem eq_nil_of_idle (h : Counted blockSize history s) (hidle : s.connected = false)
    (hadded : (history.map Event.added).sum = 0) : s.toServer = [] ∧ s.toClient = [] := by
  have htotal := h.inTransit
  rw [hidle, hadded, if_neg (by decide)] at htotal
  simpa using htotal

/-- **The step**: a read of the client adds what the answer has more. -/
theorem step (hblock : 0 < blockSize) (h : Counted blockSize history s)
    (hidle : s.connected = false → (history.map Event.added).sum = 0) {event : Event}
    (henabled : s.Enabled event) (hstep : s.step blockSize event = .ok t) :
    Counted blockSize (history ++ [event]) t ∧
      (t.connected = false → ((history ++ [event]).map Event.added).sum = 0) := by
  have htransit := h.inTransit
  have hread := h.bytesRead
  cases event with
  | connected =>
      obtain ⟨written, hlen, hstep'⟩ := step_connected hblock s
      obtain rfl := AbortingRun.ok_unique hstep hstep'
      have hidle' : s.connected = false := henabled
      obtain ⟨hserver, hclient⟩ := h.eq_nil_of_idle hidle' (hidle hidle')
      refine ⟨⟨?_, ?_⟩, fun hne => by cases hne⟩
      · simp [hserver, hclient, hlen, hidle hidle', Event.added]
      · simpa [Event.bytes] using hread
  | clientRead memory nread =>
      have hcounted := bytesRead_of_step hstep
      obtain ⟨connection, written, hstep', hwritten⟩ := step_clientRead henabled
      obtain rfl := AbortingRun.ok_unique hstep hstep'
      obtain ⟨-, hlong, hfits⟩ := henabled
      have hlength : written.length = nread + Event.added (.clientRead memory nread) := by
        rw [hwritten, Event.added]
        split
        · next hzero => rw [hzero]; rfl
        · rw [List.length_append, List.length_take, List.length_drop]
          omega
      refine ⟨⟨?_, ?_⟩, ?_⟩
      · simp only [List.length_append, List.length_drop, List.map_append, List.sum_append,
          List.map_cons, List.map_nil, List.sum_singleton, hlength]
        omega
      · rw [hcounted, hread, ← Int64.ofNat_add]
        simp [Event.bytes]
      · intro hidle'
        -- before the connect there is nothing to read
        obtain ⟨-, hclient⟩ := h.eq_nil_of_idle hidle' (hidle hidle')
        have hzero : nread = 0 := by
          rw [hclient] at hlong
          exact Nat.le_zero.mp hlong
        simp [hidle hidle', Event.added, hzero]
  | serverRead nread =>
      obtain ⟨msgBuf, hstep'⟩ := @step_serverRead blockSize _ _ _ henabled
      obtain rfl := AbortingRun.ok_unique hstep hstep'
      refine ⟨⟨?_, ?_⟩, fun hidle' => by simpa [Event.added] using hidle hidle'⟩
      · simp only [List.length_append, List.length_take, List.length_drop, List.map_append,
          List.sum_append, List.map_cons, List.map_nil, List.sum_singleton, Event.added]
        omega
      · simpa [Event.bytes] using hread
  | otherRead data =>
      obtain ⟨msgBuf, hstep'⟩ := @step_otherRead blockSize _ _ _ henabled
      obtain rfl := AbortingRun.ok_unique hstep hstep'
      refine ⟨⟨?_, ?_⟩, fun hidle' => by simpa [Event.added] using hidle hidle'⟩
      · simpa [Event.added] using htransit
      · simpa [Event.bytes] using hread

end Counted

/-- The states the two sides reach, with the events that led there. -/
def Reaches (blockSize : Int32) (counters : Counters)
    (msgBuf : CharArray (intLen inputBufSize)) (history : List Event)
    (s : Session inputBufSize) : Prop :=
  AbortingRun.Reaches (step blockSize) Enabled (start counters msgBuf) history s

theorem Reaches.counted (hblock : 0 < blockSize) {counters : Counters}
    {msgBuf : CharArray (intLen inputBufSize)} {history : List Event}
    {s : Session inputBufSize} (h : Reaches blockSize counters msgBuf history s) :
    Counted blockSize history s := by
  suffices hall : Counted blockSize history s ∧
      (s.connected = false → (history.map Event.added).sum = 0) from hall.1
  induction h with
  | start => exact ⟨⟨rfl, rfl⟩, fun _ => rfl⟩
  | event before henabled hstep ih => exact ih.1.step hblock ih.2 henabled hstep

/-- **The bytes in transit are the block, and what the reads of the client that did not
fill their buffers have added**; and the client has counted what its reads have brought, which
is right as long as it is below `2 ^ 63`. -/
theorem inTransit_of_reaches (hblock : 0 < blockSize) {counters : Counters}
    {msgBuf : CharArray (intLen inputBufSize)} {history : List Event}
    {s : Session inputBufSize} (h : Reaches blockSize counters msgBuf history s)
    (hconnected : s.connected = true) :
    s.toServer.length + s.toClient.length =
        intLen blockSize + (history.map Event.added).sum ∧
      s.connection.bytesRead = Int64.ofNat (history.map Event.bytes).sum ∧
      (s.connection.bytesRead.toInt = (history.map Event.bytes).sum ↔
        (history.map Event.bytes).sum < 2 ^ 63) := by
  have hcounted := h.counted hblock
  refine ⟨?_, hcounted.bytesRead, ?_⟩
  · rw [hcounted.inTransit, if_pos hconnected]
  · constructor
    · intro hexact
      have hlt := s.connection.bytesRead.toInt_lt
      omega
    · intro hlt
      rw [hcounted.bytesRead, Int64.toInt_ofNat_of_lt hlt]

/-- **The two sides do not stall**: when they are connected, and the server has a buffer,
there is a read that brings something, on one side or the other. -/
theorem exists_read (hblock : 0 < blockSize) (hbuf : 0 < inputBufSize) {counters : Counters}
    {msgBuf : CharArray (intLen inputBufSize)} {history : List Event}
    {s : Session inputBufSize} (h : Reaches blockSize counters msgBuf history s)
    (hconnected : s.connected = true) :
    (∃ nread, 0 < nread ∧ s.Enabled (.serverRead nread)) ∨
      ∃ nread, 0 < nread ∧ ∀ memory : List UInt8, nread ≤ memory.length →
        memory.length ≤ ptrdiffMax → s.Enabled (.clientRead memory nread) := by
  have htransit := (h.counted hblock).inTransit
  have hlen : (allocBuffer inputBufSize).len.toNat = intLen inputBufSize := by
    have hlt := intLen_lt inputBufSize
    have hsize := toNat_sizeOfInt_of_pos hbuf
    rw [allocBuffer, uvBufInit_len (by omega), hsize]
  have hpos : 0 < intLen inputBufSize ∧ 0 < intLen blockSize := by
    rw [Int32.lt_iff_toInt_lt] at hblock hbuf
    have hzero : (0 : Int32).toInt = 0 := rfl
    rw [intLen, intLen]
    omega
  rw [if_pos hconnected] at htransit
  by_cases hserver : s.toServer = []
  · refine Or.inr ⟨1, Nat.one_pos, fun memory hfits hmax => ⟨hmax, ?_, hfits⟩⟩
    rw [hserver, List.length_nil] at htransit
    omega
  · have hlength := List.length_pos_of_ne_nil hserver
    exact Or.inl ⟨1, Nat.one_pos, hlength, by omega, by omega⟩

/-- The block goes to the server and back, and the client reads a part of it. -/
def partRead : List Event := [.connected, .serverRead 3, .clientRead [0, 0, 0, 0] 2]

theorem exists_partRead : ∃ s : Session 8, Reaches 3 ⟨1, 0⟩ (CharArray.zeros _) partRead s ∧
    s.connected = true := by
  have hrun : ((AbortingRun.runEnabled (step 3) Enabled small partRead).map
      Session.connected) = some true := by decide +kernel
  obtain ⟨s, hs, hconnected⟩ := Option.map_eq_some_iff.mp hrun
  exact ⟨s, AbortingRun.Reaches.start.of_runEnabled hs, hconnected⟩

theorem inTransit_of_reaches_partRead : ∃ s : Session 8,
    s.toServer.length + s.toClient.length = intLen 3 + (partRead.map Event.added).sum ∧
      s.connection.bytesRead.toInt = (partRead.map Event.bytes).sum := by
  obtain ⟨s, hs, hconnected⟩ := exists_partRead
  obtain ⟨htransit, -, hexact⟩ := inTransit_of_reaches (by decide) hs hconnected
  exact ⟨s, htransit, hexact.mpr (by decide)⟩

theorem exists_read_partRead : ∃ s : Session 8,
    (∃ nread, 0 < nread ∧ s.Enabled (.serverRead nread)) ∨
      ∃ nread, 0 < nread ∧ ∀ memory : List UInt8, nread ≤ memory.length →
        memory.length ≤ ptrdiffMax → s.Enabled (.clientRead memory nread) := by
  obtain ⟨s, hs, hconnected⟩ := exists_partRead
  exact ⟨s, exists_read (by decide) (by decide) hs hconnected⟩

end LearnUv.PingPong.Session
